/-
  What a failed upload leaves behind.

  While the connection of an upload lives, its file stays where no other connection
  uses the name.  When the connection is closed the file is unlinked, unless the ERROR
  reply was sent to its last byte, in which case the state is `STATE_DONE`
  (`failed_upload_removed_iff`).
-/
import FileServer.Closing
import FileServer.Lifetime

namespace FileServer

/-! ### Calls -/

/-- The result of an `unlink`. -/
def Call.unlinked : Call → Option Bool
  | unlink _ ok => some ok
  | _ => none

/-- The results of the calls of `unlink`. -/
def Conn.unlinks (c : Conn) : List Bool := c.log.filterMap Call.unlinked

theorem Conn.unlinks_of_log {a b : Conn} {l : List Call} (h : b.log = a.log ++ l) :
    b.unlinks = a.unlinks ++ l.filterMap Call.unlinked := by
  rw [unlinks, h, List.filterMap_append]
  rfl

/-- The logs tell the same about files that are opened for writing and unlinked. -/
structure SameFiles (a b : Conn) : Prop where
  opened : b.opened = a.opened
  unlinks : b.unlinks = a.unlinks

namespace SameFiles

theorem refl (a : Conn) : SameFiles a a := ⟨rfl, rfl⟩

theorem trans {a b c : Conn} (h : SameFiles a b) (h' : SameFiles b c) : SameFiles a c :=
  ⟨h'.opened.trans h.opened, h'.unlinks.trans h.unlinks⟩

theorem of_log {a b : Conn} {l : List Call} (h : b.log = a.log ++ l)
    (hopen : l.any Call.opensUpload = false) (hunlink : l.filterMap Call.unlinked = []) :
    SameFiles a b :=
  ⟨by rw [Conn.opened_of_log h, hopen, Bool.or_false],
    by rw [Conn.unlinks_of_log h, hunlink, List.append_nil]⟩

theorem of_write {a b : Conn} {bs : List Byte} {r : WriteResult}
    (h : b.log = a.log ++ [.write bs r]) : SameFiles a b := of_log h rfl rfl

end SameFiles

section Steps

variable {c c' : Ctx} {st : Status} {msg : List Byte}

/-- A reply is chosen without an upload being opened; only DELETE unlinks before. -/
theorem Choose.files (h : Choose c c' st msg) : SameFiles c.toConn c'.toConn ∨
    c.client.state = .recvHeader ∧ c'.opened = c.opened := by
  have hopened : ∀ {d : Ctx} {x y : Call}, d.log = c.log ++ [x, y] →
      [x, y].any Call.opensUpload = false → d.opened = c.opened := fun hlog hno => by
    rw [Conn.opened_of_log hlog, hno, Bool.or_false]
  cases h with
  | tooLong => exact .inl (.refl _)
  | deleteFailed hl =>
    exact .inr ⟨hl.state, hopened (List.append_assoc c.log [_] [_]) rfl⟩
  | @deleted w i hl =>
    refine .inr ⟨hl.state, ?_⟩
    rw [Conn.opened, removeFileFromList_log]
    exact hopened (List.append_assoc c.log [_] [_]) rfl
  | getMissing => exact .inl (.of_log (List.append_assoc c.log [_] [_]) rfl rfl)
  | getFailed => exact .inl (.of_log (List.append_assoc c.log [_] [_]) rfl rfl)
  | getOpened => exact .inl (.of_log (List.append_assoc c.log [_] [_]) rfl rfl)
  | openFailed hs hlen ho =>
    have hlog : (openUploadFile c).2.log
        = c.log ++ [.openWrite c.filepath (openUploadFile c).1] := rfl
    exact .inl (.of_log hlog (by rw [ho]; rfl) rfl)
  | accepted => exact .inl (.of_log (acceptUpload_log c) rfl rfl)
  | @listNoMemory n =>
    left
    refine SameFiles.trans (b := (sentLine c n).toConn) (.of_write (Ctx.sysWrite_log c _)) ?_
    exact .of_log (l := []) (by simp) rfl rfl
  | _ => exact .inl (.of_log (l := [_]) rfl rfl rfl)

theorem Send.files (h : Send c c') : SameFiles c.toConn c'.toConn := by
  have hline : ∀ {n : Nat} {i : Interest} {d : Ctx}, d.log = (sentLine c n).log →
      SameFiles c.toConn (d.modifyEventLoop i).toConn := by
    intro n i d hd
    refine SameFiles.trans (b := (sentLine c n).toConn) (.of_write (Ctx.sysWrite_log c _)) ?_
    exact .of_log (l := [_]) (congrArg (· ++ _) hd) rfl rfl
  cases h with
  | @linePart n => exact hline (n := n) rfl
  | @lineGet n => exact hline (n := n) rfl
  | @lineList n => exact hline (n := n) (by rw [Ctx.setClient_log, buildListBuffer_log])
  | loadSize hs hl => rw [loadGetSize_of_zero hl]; exact ⟨rfl, rfl⟩
  | @sizeAll n => exact hline (n := n) rfl
  | _ => exact .of_write rfl

theorem Close.files (h : Close c c') : SameFiles c.toConn c'.toConn := by
  cases h with
  | header => exact .of_log (l := [_]) rfl rfl rfl
  | noFile => exact .refl _
  | pread => exact ⟨rfl, rfl⟩
  | got => exact ⟨rfl, rfl⟩
  | _ => exact .of_write rfl

/-! ### The connection of an upload -/

/-- Before it is closed, the connection of an upload unlinks nothing. -/
structure NoUnlink (c : Ctx) : Prop where
  conn : ConnOk c
  handle : HandleOk c
  unlinks : c.freed = false → c.opened = true ∨ c.client.state = .recvHeader ∨
    c.client.state = .recvPutSize → c.unlinks = []

theorem NoUnlink.of_sending (h : NoUnlink c) (hc : c.freed = false)
    (hfiles : SameFiles c.toConn c'.toConn) (hs : c'.client.state.Sending) :
    c'.opened = true ∨ c'.client.state = .recvHeader ∨ c'.client.state = .recvPutSize →
      c'.unlinks = [] := by
  rintro (ho | hs' | hs')
  · exact hfiles.unlinks.trans (h.unlinks hc (.inl (hfiles.opened.symm.trans ho)))
  · exact absurd hs' hs.ne.1
  · exact absurd hs' hs.ne.2.1

theorem NoUnlink.congr (h : NoUnlink c) (hc : c.freed = false)
    (hfiles : SameFiles c.toConn c'.toConn) (hk : c'.client.state = c.client.state) :
    c'.opened = true ∨ c'.client.state = .recvHeader ∨ c'.client.state = .recvPutSize →
      c'.unlinks = [] := by
  rw [hfiles.opened, hk]
  exact fun hor => hfiles.unlinks.trans (h.unlinks hc hor)

theorem NoUnlink.step (h : NoUnlink c) (hc : c.freed = false) (hstep : Step c c') :
    c'.opened = true ∨ c'.client.state = .recvHeader ∨ c'.client.state = .recvPutSize →
      c'.freed = false → c'.unlinks = [] := by
  intro hor hc'
  revert hor
  cases hstep with
  | quiet hq =>
    cases hq with
    | read => exact h.congr hc (.of_log (l := [_]) rfl rfl rfl) rfl
    | write => exact h.congr hc (.of_write rfl) rfl
    | pread => exact h.congr hc ⟨rfl, rfl⟩ rfl
  | receive hr => cases hr <;> exact h.congr hc (.of_log (l := [_]) rfl rfl rfl) rfl
  | begin hb =>
    cases hb with
    | @put w hl =>
      have hlog : (((takeLine c (.put w)).setClient fun k =>
          { k with bytesTransferred := 0, state := .recvPutSize }).modifyEventLoop .read).log
            = c.log ++ [.read (c.sysRead 1).1, .modify .read] := List.append_assoc c.log [_] [_]
      exact fun _ => (Conn.unlinks_of_log hlog).trans
        (by rw [h.unlinks hc (.inr (.inl hl.state))]; rfl)
    | @upload f hs =>
      have hlog : (setState (openUploadFile c).2 .recvPutData).log
          = c.log ++ [.openWrite c.filepath (openUploadFile c).1] := rfl
      exact fun _ => (Conn.unlinks_of_log hlog).trans
        (by rw [h.unlinks hc (.inr (.inr hs))]; rfl)
  | @choose d st msg hch =>
    have hfill : SameFiles d.toConn (fillResponse d st msg).toConn := .of_log (l := [_]) rfl rfl rfl
    have hsend := fillResponse_sending d st msg
    rcases hch.files with hfiles | ⟨hs, ho⟩
    · exact h.of_sending hc (hfiles.trans hfill) hsend
    · rintro (ho' | hs' | hs')
      · have hno := (h.conn.upload.header hs).1
        rw [hfill.opened, ho, hno] at ho'
        cases ho'
      · exact absurd hs' hsend.ne.1
      · exact absurd hs' hsend.ne.2.1
  | send hs => exact h.of_sending hc hs.files hs.sending
  | close => cases hc'
  | fault => exact h.congr hc (.of_log (l := [_]) rfl rfl rfl) rfl

/-! ### The file -/

/-- What a step behind the request line does to the links, but for closing. -/
theorem Step.link_isSome (hs : c.client.state ≠ .recvHeader) (h : Step c c')
    (hc' : c'.freed = false) {l : Loc}
    (hl : (c.disk.slot l).link.isSome) : (c'.disk.slot l).link.isSome := by
  have hpwrite : ∀ (d : Ctx) f bs off, (d.disk.slot l).link.isSome →
      ((d.sysPwrite f bs off).2.disk.slot l).link.isSome := fun d f bs off hd => by
    rcases d.sysPwrite_disk f bs off with heq | ⟨n, heq⟩
    · rw [heq]
      exact hd
    · rw [heq, Disk.pwrite_link]
      exact hd
  cases h with
  | quiet h => cases h <;> exact hl
  | receive h =>
    cases h with
    | @body bs f => exact hpwrite (c.sysRead _).2 f bs _ hl
    | _ => exact hl
  | begin h =>
    cases h with
    | put => exact hl
    | upload hs' hlen ho =>
      have hdisk := (Ctx.sysOpenWrite_some_disk (c.setClient _) c.filepath ho).2
      change ((openUploadFile c).2.disk.slot l).link.isSome
      change (openUploadFile c).2.disk = _ at hdisk
      rw [hdisk]
      by_cases hres : c.disk.tree.resolve c.filepath = .entry l
      · obtain ⟨gen, -, hlink, -⟩ := Disk.openWrite_entry _ hres
        exact Option.isSome_of_mem hlink
      · exact (Disk.openWrite_slot_of_ne _ hres).symm ▸ hl
  | choose h =>
    change (Disk.slot _ l).link.isSome
    cases h with
    | bad hl' => exact absurd hl'.state hs
    | tooLong hs' => exact absurd hs' hs
    | list hl' => exact absurd hl'.state hs
    | deleteAbsent hl' => exact absurd hl'.state hs
    | deleteFailed hl' => exact absurd hl'.state hs
    | deleted hl' => exact absurd hl'.state hs
    | getMissing hl' => exact absurd hl'.state hs
    | getFailed hl' => exact absurd hl'.state hs
    | getOpened hl' => exact absurd hl'.state hs
    | openFailed hs' hlen ho =>
      have hdisk := Ctx.sysOpenWrite_none_disk (c.setClient _) c.filepath ho
      exact (congrArg (fun k : Disk => (k.slot l).link.isSome) hdisk).trans hl
    | @bodyFailed bs f => exact hpwrite (c.sysRead _).2 f bs _ hl
    | accepted =>
      have hdisk : (acceptUpload c).disk = c.disk := addFileToList_disk _ _
      exact (congrArg (fun k : Disk => (k.slot l).link.isSome) hdisk).trans hl
    | @listNoMemory n =>
      have hdisk : (buildListBuffer (sentLine c n)).2.disk = c.disk := buildListBuffer_disk _
      exact (congrArg (fun k : Disk => (k.slot l).link.isSome) hdisk).trans hl
    | _ => exact hl
  | send h => rw [h.disk]; exact hl
  | close => cases hc'
  | fault hl' => exact absurd hl'.state hs

end Steps

theorem noUnlink_stable : Stable NoUnlink where
  new := fun fd script g => ⟨connOk_stable.new fd script g, handleOk_stable.new fd script g,
    fun _ _ => rfl⟩
  step := fun c c' hc h hstep => ⟨connOk_stable.step c c' hc h.conn hstep,
    handleOk_stable.step c c' hc h.handle hstep, fun hc' hor => h.step hc hstep hor hc'⟩
  close := fun c hc h => ⟨connOk_stable.close c hc h.conn, handleOk_stable.close c hc h.handle,
    fun hc' => by cases hc'⟩
  globals := fun c g hg hf h => ⟨connOk_stable.globals c g hg hf h.conn,
    handleOk_stable.globals c g hg hf h.handle, h.unlinks⟩

/-! ### Held files -/

namespace Disk

variable {k : Disk} {p : Path}

theorem read_isSome_iff : (k.read p).isSome ↔
    ∃ l, k.tree.resolve p = .entry l ∧ (k.slot l).link.isSome := by
  unfold read
  cases h : k.tree.resolve p with
  | entry l => simp [lookup]
  | dir d => simp
  | none => simp

/-- Reading a path depends on the entry that it denotes. -/
theorem read_congr {k' : Disk} (htree : k'.tree = k.tree)
    (hslot : ∀ l, k.tree.resolve p = .entry l → k'.slot l = k.slot l) : k'.read p = k.read p := by
  unfold read
  rw [htree]
  cases h : k.tree.resolve p with
  | entry l => exact lookup_congr (hslot l h)
  | dir d => rfl
  | none => rfl

theorem read_unlink : (k.unlink p).2.read p = none := by
  cases h : k.tree.resolve p with
  | entry l =>
    rw [read_entry _ (by rw [unlink_tree]; exact h), lookup_eq_none]
    exact k.unlink_link h
  | dir d => simp only [read, unlink_tree, h]
  | none => simp only [read, unlink_tree, h]

end Disk

/-- The file of an upload: it is there while the connection lives, and afterwards where it was not
unlinked. -/
structure Held (c : Ctx) : Prop where
  here : c.opened = true → c.freed = false → (c.disk.read c.filepath).isSome
  gone : c.opened = true → c.freed = true → c.accepted = false →
    (c.disk.read c.filepath = none ↔ ¬ ReplySent c.toConn ∧ false ∉ c.unlinks)

section Steps

variable {c c' : Ctx}

theorem Held.of_not_opened (h : c.opened = false) : Held c :=
  ⟨fun ho => (by cases h.symm.trans ho), fun ho => by cases h.symm.trans ho⟩

theorem Held.congr (h : Held c) (hconn : c'.toConn = c.toConn)
    (hread : c'.disk.read c'.filepath = c.disk.read c.filepath) : Held c' := by
  constructor
  · rw [hconn, hread]
    exact h.here
  · rw [hconn, hread]
    exact h.gone

/-- A file is opened in a step where it then is. -/
theorem Step.opened (h : Step c c') (ho : c'.opened = true) :
    c.opened = true ∨ (c'.disk.read c'.filepath).isSome := by
  have hsame : SameFiles c.toConn c'.toConn → c.opened = true := fun hf => hf.opened.symm.trans ho
  cases h with
  | quiet hq =>
    cases hq with
    | read => exact .inl (hsame (.of_log (l := [_]) rfl rfl rfl))
    | write => exact .inl (hsame (.of_write rfl))
    | pread => exact .inl (hsame ⟨rfl, rfl⟩)
  | receive hr => cases hr <;> exact .inl (hsame (.of_log (l := [_]) rfl rfl rfl))
  | begin hb =>
    cases hb with
    | put => exact .inl (hsame (.of_log (List.append_assoc c.log [_] [_]) rfl rfl))
    | upload hs hlen hopen =>
      obtain ⟨l, gen, hu, hlink, -⟩ := openUploadFile_uploadFile hopen
      exact .inr (Disk.read_isSome_iff.mpr ⟨l, hu.target, Option.isSome_of_mem hlink⟩)
  | @choose d st msg hch =>
    have hfill : SameFiles d.toConn (fillResponse d st msg).toConn := .of_log (l := [_]) rfl rfl rfl
    rcases hch.files with hfiles | ⟨-, heq⟩
    · exact .inl (hsame (hfiles.trans hfill))
    · exact .inl (heq.symm.trans (hfill.opened.symm.trans ho))
  | send hs => exact .inl (hsame hs.files)
  | @close k hk =>
    exact .inl (hk.files.opened.symm.trans ((closeAndCleanup_opened k).symm.trans ho))
  | fault => exact .inl (hsame (.of_log (l := [_]) rfl rfl rfl))

theorem Held.close {k : Ctx} (hr : ReplyOk k.toConn) (hu : UploadOk k.toConn)
    (hno : k.opened = true → k.unlinks = [])
    (hread : k.opened = true → (k.disk.read k.filepath).isSome) : Held (closeAndCleanup k) where
  here := fun _ hc => by cases hc
  gone := fun ho _ _ => by
    rw [closeAndCleanup_opened] at ho
    have hput := hu.opened ho
    have hpath : (closeAndCleanup k).filepath = k.filepath := by
      rw [Ctx.filepath, closeAndCleanup_client, (closeAndCleanup_grows k).tree]
      rfl
    have hsent : ReplySent (closeAndCleanup k).toConn ↔ k.client.state = .done := by
      rw [← replySent_iff hr hput, ReplySent, closeAndCleanup_replies, closeAndCleanup_sent]
      rfl
    have hdisk := closeAndCleanup_disk k
    have hunlinks : (closeAndCleanup k).unlinks
        = if k.client.Unlinks then [(k.sysUnlink k.filepath).1] else [] := by
      rw [Conn.unlinks_of_log (closeAndCleanup_log k), hno ho]
      split_ifs <;> rfl
    rw [hpath, hsent, hunlinks]
    have hsome := hread ho
    -- `close_and_cleanup` unlinks unless the connection is in `STATE_DONE`
    by_cases hun : k.client.Unlinks
    · rw [if_pos hun] at hdisk ⊢
      rw [hdisk]
      cases hok : (k.sysUnlink k.filepath).1 with
      | true =>
        rw [(k.sysUnlink_true_disk _ hok).2, Disk.read_unlink]
        simp [hun.2]
      | false =>
        rw [k.sysUnlink_false_disk _ hok]
        refine ⟨fun hnone => ?_, fun h => absurd (List.mem_singleton_self _) h.2⟩
        rw [hnone] at hsome
        cases hsome
    · rw [if_neg hun] at hdisk
      rw [hdisk]
      have hdone : k.client.state = .done := by
        by_contra hs
        exact hun ⟨hput, hs⟩
      refine ⟨fun hnone => ?_, fun h => absurd hdone h.1⟩
      rw [hnone] at hsome
      cases hsome

theorem Held.step (hc : c.freed = false) (hno : NoUnlink c) (h : Held c) (hstep : Step c c') :
    Held c' := by
  by_cases hfreed : c'.freed = true
  · cases hstep with
    | @close k hk =>
      have hks := hk.files
      refine Held.close (hk.replyOk hc hno.conn.reply) (hk.uploadOk hno.conn.upload)
        (fun ho => hks.unlinks.trans (hno.unlinks hc (.inl (hks.opened.symm.trans ho))))
        fun ho => ?_
      have hpath : k.filepath = c.filepath := by
        cases hk <;> rfl
      rw [hk.disk, hpath]
      exact h.here (hks.opened.symm.trans ho) hc
    | quiet hq => cases hq <;> cases hc.symm.trans hfreed
    | receive hr => cases hr <;> cases hc.symm.trans hfreed
    | begin hb => cases hb <;> cases hc.symm.trans hfreed
    | choose hch => cases (hch.freed.trans hc).symm.trans hfreed
    | send hs => cases (hs.freed.trans hc).symm.trans hfreed
    | fault => cases hc.symm.trans hfreed
  · refine ⟨fun ho hc' => ?_, fun _ hc' => absurd hc' hfreed⟩
    -- the file was there before, or is opened in this step
    rcases hstep.opened ho with hold | hread
    · have hs : c.client.state ≠ .recvHeader := fun hs => by
        cases hold.symm.trans (hno.conn.upload.header hs).1
      obtain ⟨l, hl, hlink⟩ := Disk.read_isSome_iff.mp (h.here hold hc)
      rw [hstep.filepath hs]
      exact Disk.read_isSome_iff.mpr ⟨l, by rw [hstep.tree]; exact hl,
        hstep.link_isSome hs hc' hlink⟩
    · exact hread

end Steps

/-! ### Other connections -/

/-- The entry that the path of a connection denotes. -/
def Server.target (s : Server) (conn : Conn) : Target :=
  s.disk.tree.resolve (s.ctx conn).filepath

/-- A connection whose path denotes the entry is at work. -/
def UsedBy (s s' : Server) (j : ConnId) (l : Loc) : Prop :=
  ∃ o o', s.conns[j]? = some o ∧ o.freed = false ∧ s'.conns[j]? = some o' ∧ o'.Settled ∧
    s'.target o' = .entry l

/-- **Frame.** A handler touches no entry but the one that the path of its connection denotes. -/
theorem Steps.slot {c c' : Ctx} (hh : HandleOk c) (h : Steps c c') (l : Loc) :
    c'.disk.slot l = c.disk.slot l ∨
      c'.toConn.Settled ∧ c'.disk.tree.resolve c'.filepath = .entry l := by
  have hrun := Chain.invariant (P := fun x : Ctx => HandleOk x ∧
      (x.disk.slot l = c.disk.slot l ∨
        x.toConn.Settled ∧ x.disk.tree.resolve x.filepath = .entry l))
    (fun x y ⟨hx, hxy⟩ ⟨hhx, hslot⟩ => by
      refine ⟨hhx.step hx hxy, ?_⟩
      rcases hslot with heq | ⟨hset, hpath⟩
      · exact (hxy.slot hhx hx l).imp_left fun h => h.trans heq
      · have hs : x.client.state ≠ .recvHeader :=
          hset.resolve_left fun hf => by cases hx.symm.trans hf
        refine .inr ⟨.inr (hxy.sameHeader hs).1, ?_⟩
        rw [hxy.filepath hs, hxy.tree]
        exact hpath) h ⟨hh, .inl rfl⟩
  exact hrun.2

theorem Handled.slot {c c' : Ctx} (hh : HandleOk c) (h : Handled c c') (l : Loc) :
    c'.disk.slot l = c.disk.slot l ∨
      c'.toConn.Settled ∧ c'.disk.tree.resolve c'.filepath = .entry l := by
  cases h with
  | steps h => exact h.slot hh l
  | closed =>
    rcases closeAndCleanup_slot c l with heq | ⟨-, hl⟩
    · exact .inl heq
    · refine .inr ⟨.inl rfl, ?_⟩
      rw [Ctx.filepath, closeAndCleanup_client, (closeAndCleanup_grows c).tree]
      exact hl

/-- What an action means for the connection `i` and for the entries: its own handler ran, or it is
as before and entries are touched by others only. -/
inductive Beside (s : Server) (i : ConnId) (s' : Server) (conn' : Conn) : Prop
  | own {conn : Conn} {c : Ctx} (hi : s.conns[i]? = some conn) (hlive : conn.freed = false)
      (h : Handled (s.ctx conn) c) (hconn : conn' = c.toConn) (hdisk : s'.disk = c.disk)
  | other (hi : s.conns[i]? = some conn' ∨ ∃ fd script, conn' = newConn fd script)
      (hslot : ∀ l, s'.disk.slot l = s.disk.slot l ∨ ∃ j, j ≠ i ∧ UsedBy s s' j l)

namespace Server

variable {s : Server}

theorem act_beside (h : MapInv s) (hh : ∀ conn ∈ s.conns, HandleOk (s.ctx conn)) (a : Action)
    {i : ConnId} {conn' : Conn} (hi : (s.act a).conns[i]? = some conn') :
    Beside s i (s.act a) conn' := by
  have ht := act_turn h a
  generalize s.act a = s' at ht hi
  have hput : ∀ {j : ConnId} {conn : Conn} {c : Ctx}, s.conns[j]? = some conn →
      conn.freed = false → Handled (s.ctx conn) c → s'.conns = (s.put j c).conns →
      s'.disk = c.disk → Beside s i s' conn' := by
    intro j conn c hj hlive hc hconns hdisk
    rw [hconns] at hi
    by_cases hij : i = j
    · subst hij
      rw [put_conns_self c hj] at hi
      exact .own hj hlive hc (Option.some.inj hi).symm hdisk
    · rw [put_conns_of_ne c hij] at hi
      refine .other (.inl hi) fun l => ?_
      rcases hc.slot (hh conn (List.mem_of_getElem? hj)) l with heq | ⟨hset, hl⟩
      · exact .inl (by rw [hdisk]; exact heq)
      · refine .inr ⟨j, Ne.symm hij, conn, c.toConn, hj, hlive, ?_, hset, ?_⟩
        · rw [hconns, put_conns_self c hj]
        · rw [target, Ctx.filepath]
          change s'.disk.tree.resolve (snprintf 1024
            (s'.disk.tree.tempName ++ [slash] ++ c.client.filename)) = _
          rw [hdisk]
          exact hl
  cases ht with
  | idle => exact .other (.inl hi) fun l => .inl rfl
  | @accept fd script rest grow hfd =>
    refine .other ?_ fun l => .inl rfl
    change (s.conns ++ [newConn fd rest])[i]? = some conn' at hi
    by_cases hlt : i < s.conns.length
    · left
      rwa [List.getElem?_append_left hlt] at hi
    · rw [List.getElem?_append_right (Nat.le_of_not_lt hlt)] at hi
      obtain ⟨h0, h1⟩ := List.getElem?_eq_some_iff.mp hi
      exact .inr ⟨fd, rest, h1.symm.trans (List.getElem_singleton h0)⟩
  | handle hget hj hlive h => exact hput hj hlive (.steps h) rfl rfl
  | error hev hget hj hlive => exact hput hj hlive .closed rfl rfl
  | noMemory => exact .other (.inl hi) fun l => .inl rfl
  | useAfterFree hev hget hj hlive h => exact hput hj hlive (.steps h) rfl rfl

end Server

/-! ### Runs -/

/-- From the state `s` on no other connection uses the name of connection `i`: those whose path
denotes the same entry at the end of the run were closed before. -/
def Alone (s : Server) (acts : List Action) (i : ConnId) : Prop :=
  ∀ conn l, (s.run acts).conns[i]? = some conn → (s.run acts).target conn = .entry l →
    ∀ j o, j ≠ i → (s.run acts).conns[j]? = some o → o.Settled → (s.run acts).target o = .entry l →
      ∃ o₀, s.conns[j]? = some o₀ ∧ o₀.freed = true

theorem Reachable.run {s : Server} (h : Reachable s) (acts : List Action) :
    Reachable (s.run acts) := by
  obtain ⟨k, pre, hk, rfl⟩ := h
  exact ⟨k, pre ++ acts, hk, (Server.run_append _ _ _).symm⟩

section Runs

variable {s : Server} {acts : List Action} {i : ConnId}

/-- The target of a settled connection stays. -/
theorem Server.target_le {s' : Server} (h : Server.Le s s') {o o' : Conn} (hs : o.Settled)
    (hp : o.Progress o') : o'.Settled ∧ s'.target o' = s.target o := by
  obtain ⟨hs', hsame⟩ := hp.settled hs
  refine ⟨hs', ?_⟩
  change s'.disk.tree.resolve (snprintf 1024
    (s'.disk.tree.tempName ++ [slash] ++ o'.client.filename)) = s.disk.tree.resolve (snprintf 1024
      (s.disk.tree.tempName ++ [slash] ++ o.client.filename))
  rw [h.disk.tree, hsame.name]

/-- An action of the run in which another connection uses the entry. -/
theorem Alone.not_usedBy (hm : MapInv s) (h : Alone s acts i) {pre post : List Action} {a : Action}
    (heq : acts = pre ++ a :: post) {conn : Conn} (hi : (s.run pre).conns[i]? = some conn)
    (hset : conn.Settled) {l : Loc} (hl : (s.run pre).target conn = .entry l) {j : ConnId}
    (hji : j ≠ i) : ¬ UsedBy (s.run pre) ((s.run pre).act a) j l := by
  rintro ⟨o, o', hj, hlive, hj', hset', hl'⟩
  have hact : Server.Le (s.run pre) ((s.run pre).act a) :=
    Server.turn_le (Server.act_turn (hm.run pre) a)
  have hpost : Server.Le ((s.run pre).act a) (s.run acts) := by
    rw [heq, Server.run_append, Server.run_cons]
    exact Server.run_le ((hm.run pre).act a) post
  obtain ⟨conn', hi', hp⟩ := (hact.trans hpost).conns i conn hi
  obtain ⟨o'', hj'', hp'⟩ := hpost.conns j o' hj'
  have htarget := (Server.target_le (hact.trans hpost) hset hp).2
  obtain ⟨hset'', htarget'⟩ := Server.target_le hpost hset' hp'
  obtain ⟨o₀, hj₀, hfreed⟩ := h conn' l hi' (htarget.trans hl) j o'' hji hj'' hset''
    (htarget'.trans hl')
  obtain ⟨o₁, hj₁, hp₁⟩ := (Server.run_le hm pre).conns j o₀ hj₀
  obtain rfl := Option.some.inj (hj.symm.trans hj₁)
  cases hlive.symm.trans (hp₁.freed_true hfreed)

/-- The file of an upload that is alone with its name is held. -/
theorem Alone.held (hs : Reachable s) (h : Alone s acts i)
    (hnew : ∀ conn, s.conns[i]? = some conn → conn.opened = false) :
    ∀ conn, (s.run acts).conns[i]? = some conn → Held ((s.run acts).ctx conn) := by
  refine Chain.run_between (I := fun t : Server => ∀ conn, t.conns[i]? = some conn →
    Held (t.ctx conn)) s acts (fun pre a post heq hheld conn' hi' => ?_)
    fun conn hi => .of_not_opened (hnew conn hi)
  change (s.run pre).act a |>.conns[i]? = some conn' at hi'
  change Held (((s.run pre).act a).ctx conn')
  have hreach : Reachable (s.run pre) := hs.run pre
  have hno := noUnlink_stable.reachable hreach
  cases Server.act_beside hreach.mapInv (fun conn hmem => (hno conn hmem).handle) a hi' with
  | @own conn c hi hlive hhand hconn hdisk =>
    have hpair := hhand.invariant (P := fun x => NoUnlink x ∧ Held x) hlive
      ⟨hno conn (List.mem_of_getElem? hi), hheld conn hi⟩
      (fun x y hx ⟨hnx, hxh⟩ hxy => ⟨noUnlink_stable.step x y hx hnx hxy, hxh.step hx hnx hxy⟩)
      (fun x hx ⟨hnx, hxh⟩ => ⟨noUnlink_stable.close x hx hnx, Held.close hnx.conn.reply
        hnx.conn.upload (fun ho => hnx.unlinks hx (.inl ho)) fun ho => hxh.here ho hx⟩)
    subst hconn
    have hread : ((s.run pre).act a).disk.read (((s.run pre).act a).ctx c.toConn).filepath
        = c.disk.read c.filepath := by
      rw [Ctx.filepath, hdisk]
      change c.disk.read (snprintf 1024
        (((s.run pre).act a).disk.tree.tempName ++ [slash] ++ c.client.filename)) = _
      rw [hdisk]
      rfl
    exact hpair.2.congr rfl hread
  | other hi hslot =>
    rcases hi with hi | ⟨fd, script, rfl⟩
    · -- the connection did nothing, and nobody else uses its entry
      by_cases ho : conn'.opened = true
      · have hset : conn'.Settled := by
          by_contra hset
          obtain ⟨-, hst⟩ := not_or.mp hset
          have hheader := (hno conn' (List.mem_of_getElem? hi)).conn.upload.header
            (not_not.mp hst)
          cases ho.symm.trans hheader.1
        have hread : ((s.run pre).act a).disk.read (((s.run pre).act a).ctx conn').filepath
            = (s.run pre).disk.read ((s.run pre).ctx conn').filepath := by
          have htree : ((s.run pre).act a).disk.tree = (s.run pre).disk.tree :=
            (Server.turn_le (Server.act_turn hreach.mapInv a)).disk.tree
          have hpath : (((s.run pre).act a).ctx conn').filepath
              = ((s.run pre).ctx conn').filepath := by
            change snprintf 1024 (((s.run pre).act a).disk.tree.tempName ++ [slash] ++ _) = _
            rw [htree]
            rfl
          rw [hpath]
          refine Disk.read_congr htree fun l hl => (hslot l).resolve_right ?_
          rintro ⟨j, hji, hused⟩
          exact h.not_usedBy hs.mapInv heq hi hset hl hji hused
        exact (hheld conn' hi).congr rfl hread
      · exact .of_not_opened (Bool.eq_false_of_not_eq_true ho)
    · exact .of_not_opened rfl

end Runs

/-- **A failed upload leaves no file behind exactly where its ERROR reply was not sent to the end
and the `unlink` does not fail.** -/
theorem failed_upload_removed_iff {s : Server} (hs : Reachable s) {acts : List Action} {i : ConnId}
    {conn : Conn} (hi : (s.run acts).conns[i]? = some conn)
    (hnew : ∀ conn, s.conns[i]? = some conn → conn.opened = false) (halone : Alone s acts i)
    (hopened : conn.opened = true) (hacc : conn.accepted = false) (hclosed : conn.freed = true) :
    (s.run acts).disk.read ((s.run acts).ctx conn).filepath = none ↔
      ¬ ReplySent conn ∧ false ∉ conn.unlinks :=
  (halone.held hs hnew conn hi).gone hopened hclosed hacc

/-- A client announces one byte for `x` and shuts its side down; the server can send what `tx`
allows, and then finds an error on the socket. -/
def cutUpload (tx : List TxItem) : List Action :=
  [.accept 5 ⟨pushBack (ascii "PUT x\n" ++ sizeBytes 1) [.eof], tx, [], []⟩, .event 5 .onRead,
    .event 5 .onRead, .event 5 .onError]

/-- A single connection is alone. -/
theorem alone_of_length {s : Server} {acts : List Action} (h : (s.run acts).conns.length = 1) :
    Alone s acts 0 := by
  intro _ _ _ _ j o hj ho
  obtain ⟨hlt, -⟩ := List.getElem?_eq_some_iff.mp ho
  exact absurd (Nat.lt_one_iff.mp (h ▸ hlt)) hj

theorem failed_upload_removed_cutUpload : ∃ conn,
    ((Server.boot bareDisk).run (cutUpload [])).conns[0]? = some conn ∧
    ((Server.boot bareDisk).run (cutUpload [])).disk.read
      (((Server.boot bareDisk).run (cutUpload [])).ctx conn).filepath = none := by
  obtain ⟨conn, hi, ho, hacc, hf, hsent, hun⟩ :
      ∃ conn ∈ ((Server.boot bareDisk).run (cutUpload [])).conns[0]?, conn.opened = true ∧
        conn.accepted = false ∧ conn.freed = true ∧ conn.sent = [] ∧ false ∉ conn.unlinks := by
    decide +kernel
  refine ⟨conn, hi, (failed_upload_removed_iff ⟨bareDisk, [], bareDisk_fresh, rfl⟩ hi
    (fun conn h => by cases h) (alone_of_length (by decide +kernel)) ho hacc hf).mpr ⟨?_, hun⟩⟩
  rintro ⟨st, msg, -, htext⟩
  rw [hsent] at htext
  cases st <;> cases htext

/-- The socket takes the whole ERROR reply, and the empty file stays. -/
theorem not_failed_upload_removed_reply : ¬ ∀ s, Reachable s → ∀ acts i conn,
    (s.run acts).conns[i]? = some conn →
    (∀ conn, s.conns[i]? = some conn → conn.opened = false) → Alone s acts i →
    conn.opened = true → conn.accepted = false → conn.freed = true →
      (s.run acts).disk.read ((s.run acts).ctx conn).filepath = none := by
  intro h
  obtain ⟨conn, hi, ho, hacc, hf, hread⟩ :
      ∃ conn ∈ ((Server.boot bareDisk).run (cutUpload [.room 30])).conns[0]?,
        conn.opened = true ∧ conn.accepted = false ∧ conn.freed = true ∧
          (((Server.boot bareDisk).run (cutUpload [.room 30])).disk.read
            (((Server.boot bareDisk).run (cutUpload [.room 30])).ctx conn).filepath).isSome := by
    decide +kernel
  rw [h (Server.boot bareDisk) ⟨bareDisk, [], bareDisk_fresh, rfl⟩ _ 0 conn hi
    (fun conn h => by cases h) (alone_of_length (by decide +kernel)) ho hacc hf] at hread
  cases hread

end FileServer
