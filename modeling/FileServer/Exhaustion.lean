/-
  When allocations fail.

  `add_file_to_list` checks neither `strdup` nor the growth of the list, so an upload is
  answered OK without its name in the list, or with a `NULL` element in its place, where
  one of them fails (`acceptance_survives_iff`).  `start_send_list` falls back into the
  ERROR reply where the buffer of a LIST cannot be allocated, behind the OK line that is
  already sent; but for that, what is sent behind an OK line is the size field and the
  payload of the file or of the list, and nothing where the request was PUT or DELETE
  (`ok_not_retracted`).
-/
import FileServer.Recognition
import FileServer.Record
import FileServer.Serial

namespace FileServer

/-! ### Accepting an upload -/

/-- The allocations of `add_file_to_list` succeed: `strdup`, and `realloc` where the list is
full. -/
def NameAllocated (mem : List Bool) (full : Bool) : Prop :=
  mem.head? ≠ some false ∧ (full = true → mem[1]? ≠ some false)

instance (mem : List Bool) (full : Bool) : Decidable (NameAllocated mem full) :=
  inferInstanceAs (Decidable (_ ∧ _))

section Steps

variable {c c' : Ctx}

theorem searchName_null_mem {name : Path} {i : Nat} {xs : List (Option Path)}
    (h : searchName name i xs = .null) : none ∈ xs := by
  induction xs generalizing i with
  | nil => cases h
  | cons x xs ih =>
    cases x with
    | none => exact List.mem_cons_self
    | some w =>
      unfold searchName at h
      split_ifs at h
      exact List.mem_cons_of_mem _ (ih h)

theorem alloc_mem (s : Script) : s.alloc.2.mem = s.mem.tail := by
  unfold Script.alloc
  cases hm : s.mem with
  | nil => exact hm
  | cons x mem => rfl

/-- **`add_file_to_list`** leaves a list of names with the new one in it exactly where it was there
already or its allocations succeed. -/
theorem addFileToList_listed_iff (name : Path) (h : none ∉ c.serverFiles.contents) :
    (some name ∈ (addFileToList c name).serverFiles.contents ∧
        none ∉ (addFileToList c name).serverFiles.contents) ↔
      some name ∈ c.serverFiles.contents ∨ NameAllocated c.script.mem c.serverFiles.full := by
  unfold addFileToList
  obtain ⟨d, hd⟩ : ∃ d, c.use (.add name c.script.alloc.1 (growth c)) = d := ⟨_, rfl⟩
  have hfiles : d.serverFiles = c.serverFiles := by rw [← hd]; rfl
  have hscript : d.script = c.script := by rw [← hd]; rfl
  rw [hd, ← hfiles, ← hscript]
  rw [← hfiles] at h
  dsimp only
  split
  · next i hf =>
    have hmem := (searchName_found_idxOf hf).1
    exact iff_of_true ⟨hmem, h⟩ (.inl hmem)
  · next hf => exact absurd (searchName_null_mem hf) h
  · next hf =>
    have hno := searchName_absent_not_mem hf
    rw [or_iff_right hno]
    simp only [contents_vectorPushBack]
    cases hdup : d.sysAlloc.1 with
    | false =>
      -- a `NULL` element, or nothing where the list cannot grow
      have hmem : ¬ NameAllocated d.script.mem d.serverFiles.full := fun hn => by
        have : d.script.alloc.1 = true := (alloc_fst _).mpr hn.1
        exact Bool.noConfusion (hdup.symm.trans this)
      refine iff_of_false ?_ hmem
      rw [if_neg (show ¬ false = true by simp)]
      rintro ⟨hname, hnull⟩
      by_cases hgrow : d.serverFiles.full = true ∧
          (if d.serverFiles.full = true then d.sysAlloc.2.sysAlloc else (true, d.sysAlloc.2)).1
            = false
      · rw [if_pos hgrow] at hname
        exact hno hname
      · rw [if_neg hgrow] at hnull
        exact hnull (List.mem_append_right _ (List.mem_singleton_self _))
    | true =>
      have hhead : d.script.mem.head? ≠ some false := (alloc_fst _).mp hdup
      cases hfull : d.serverFiles.full with
      | false => simp [NameAllocated, hhead, h]
      | true =>
        have hgrow : d.sysAlloc.2.sysAlloc.1 = true ↔ d.script.mem[1]? ≠ some false := by
          refine (alloc_fst _).trans ?_
          change (d.script.alloc.2.mem.head? ≠ _) ↔ _
          rw [alloc_mem, List.head?_tail]
        cases hg : d.sysAlloc.2.sysAlloc.1 with
        | false =>
          have : ¬ NameAllocated d.script.mem true := fun hn =>
            Bool.noConfusion (hg.symm.trans (hgrow.mpr (hn.2 rfl)))
          simp [this, hg, hno]
        | true => simp [NameAllocated, hhead, h, hg, hgrow.mp hg]

/-- The upload in `d` is accepted: the reply is chosen, and the name is added where it has to be. -/
theorem acceptUpload_listed_iff {d : Ctx} (h : none ∉ d.serverFiles.contents) :
    (some d.client.filename ∈ (acceptUpload d).serverFiles.contents ∧
        none ∉ (acceptUpload d).serverFiles.contents) ↔
      some d.client.filename ∈ d.serverFiles.contents ∨
        NameAllocated d.script.mem d.serverFiles.full := by
  have hmem : ((readExtra d).2.note (.accept d.client.filename)).script.mem = d.script.mem :=
    Script.read_mem ..
  have hiff := addFileToList_listed_iff (c := (readExtra d).2.note (.accept d.client.filename))
    d.client.filename h
  rw [hmem] at hiff
  exact hiff

/-- While a request is received, nothing is allocated and the list stays. -/
theorem Step.of_receiving (h : Step c c') (hc' : c'.freed = false)
    (hs : c'.client.state.Receiving) :
    c.client.state.Receiving ∧ c'.script.mem = c.script.mem ∧ c'.serverFiles = c.serverFiles := by
  have hsend : ¬ c'.client.state.Sending := fun hsend => by
    rcases hs with hs | hs | hs
    · exact hsend.ne.1 hs
    · exact hsend.ne.2.1 hs
    · exact hsend.ne.2.2.1 hs
  cases h with
  | quiet hq =>
    cases hq with
    | read => exact ⟨hs, Script.read_mem .., rfl⟩
    | write => exact ⟨hs, Script.write_mem .., rfl⟩
    | pread => exact ⟨hs, Script.file_mem _, rfl⟩
  | receive hr =>
    cases hr with
    | header _ hs' => exact ⟨.inl hs', Script.read_mem .., rfl⟩
    | size hs' => exact ⟨.inr (.inl hs'), Script.read_mem .., rfl⟩
    | body hs' =>
      exact ⟨.inr (.inr hs'), (Script.file_mem _).trans (Script.read_mem ..), rfl⟩
  | begin hb =>
    cases hb with
    | @put w hl => exact ⟨.inl hl.state, takeLine_mem (.put w), rfl⟩
    | upload hs' => exact ⟨.inr (.inl hs'), Script.file_mem _, rfl⟩
  | choose => exact absurd (fillResponse_sending _ _ _) hsend
  | send hs' => exact absurd hs'.sending hsend
  | close => cases hc'
  | @fault w hl => exact ⟨.inl hl.state, takeLine_mem (.delete w), rfl⟩

/-- An upload is accepted behind `c`: in `d`, whose allocations and list are those of `c`. -/
structure AcceptedIn (c d x : Ctx) : Prop where
  name : d.client.filename = x.client.filename
  mem : d.script.mem = c.script.mem
  before : d.serverFiles = c.serverFiles
  after : x.serverFiles = (acceptUpload d).serverFiles

/-- What a handler has done about its upload. -/
inductive UploadProgress (c x : Ctx) : Prop
  | waiting (hacc : x.accepted = false) (hsame : x.freed = false → x.client.state.Receiving →
      x.script.mem = c.script.mem ∧ x.serverFiles = c.serverFiles)
  | accepted {d : Ctx} (hacc : x.accepted = true) (h : AcceptedIn c d x)

theorem UploadProgress.step {x y : Ctx} (h : UploadProgress c x) (hx : x.freed = false)
    (hok : ConnOk x) (hok' : ConnOk y) (hxy : Step x y) : UploadProgress c y := by
  cases h with
  | waiting hacc hsame =>
    by_cases hy : y.accepted = true
    · rcases hxy.accepted_cases hok' hy with hxa | ⟨hs, rfl⟩
      · cases hacc.symm.trans hxa
      · obtain ⟨hmem, hfiles⟩ := hsame hx (.inr (.inr hs))
        refine .accepted hy ⟨?_, hmem, hfiles, rfl⟩
        change x.client.filename = (acceptUpload x).client.filename
        rw [acceptUpload_client]
    · refine .waiting (Bool.eq_false_of_not_eq_true hy) fun hfreed hs => ?_
      obtain ⟨hs', hmem, hfiles⟩ := hxy.of_receiving hfreed hs
      obtain ⟨hmem', hfiles'⟩ := hsame hx hs'
      exact ⟨hmem.trans hmem', hfiles.trans hfiles'⟩
  | accepted hacc h =>
    obtain ⟨-, hst, -⟩ := hok.upload.accepted hacc
    have hs : x.client.state.Sending := .inl (hst.resolve_right fun hd => by
      cases hx.symm.trans (hok.done hd))
    exact .accepted (Conn.accepted_mono hxy.log hacc) ⟨h.name.trans
      (hxy.sameHeader hs.ne.1).2.name.symm, h.mem, h.before,
      (hxy.serverFiles_of_sending hs).trans h.after⟩

/-- **A handler that accepts an upload** adds its name to the list that it found, with the
allocations that it found. -/
theorem Handled.acceptedIn (h : Handled c c') (hc : c.freed = false) (hok : ConnOk c)
    (hacc : c.accepted = false) (hacc' : c'.accepted = true) : ∃ d, AcceptedIn c d c' := by
  have hrun : UploadProgress c c' ∧ ConnOk c' := h.invariant hc
    (P := fun x => UploadProgress c x ∧ ConnOk x) ⟨.waiting hacc fun _ _ => ⟨rfl, rfl⟩, hok⟩
    (fun x y hx ⟨hp, hok⟩ hxy => by
      have hok' := connOk_stable.step x y hx hok hxy
      exact ⟨hp.step hx hok hok' hxy, hok'⟩)
    fun x hx ⟨hp, hok⟩ => ⟨by
      cases hp with
      | waiting hacc =>
        exact .waiting ((closeAndCleanup_accepted x).trans hacc) fun hf => by cases hf
      | accepted hacc h =>
        refine .accepted ((closeAndCleanup_accepted x).trans hacc) ⟨?_, h.mem, h.before,
          (closeAndCleanup_serverFiles x).trans h.after⟩
        rw [closeAndCleanup_client]
        exact h.name, connOk_stable.close x hx hok⟩
  cases hrun.1 with
  | waiting hno => cases hno.symm.trans hacc'
  | accepted _ h => exact ⟨_, h⟩

/-- Without an upload being accepted the list loses elements at most. -/
theorem Step.contents_sublist (h : Step c c') (hok : ConnOk c)
    (hacc : c'.accepted = true → c.accepted = true) :
    c'.serverFiles.contents.Sublist c.serverFiles.contents := by
  rcases h.serverFiles with heq | ⟨d, st, msg, hch, rfl⟩
  · rw [heq]
  · change d.serverFiles.contents.Sublist _
    cases hch with
    | @deleted w i hl =>
      rcases contents_removeFileFromList
        ((takeLine c (.delete w)).sysUnlink (takeLine c (.delete w)).filepath).2 (w.take 255)
        with heq | heq
      · rw [heq]
        exact List.Sublist.refl _
      · rw [heq]
        exact List.erase_sublist
    | accepted hs =>
      have hlog : (fillResponse (acceptUpload c) .ok []).log = c.log ++
          [.read (readExtra c).1, .accept c.client.filename, .reply .ok []] := by
        change (acceptUpload c).log ++ [_] = _
        rw [acceptUpload_log, List.append_assoc]
        rfl
      have hyes : (fillResponse (acceptUpload c) .ok []).accepted = true := by
        rw [Conn.accepted_of_log hlog]
        simp [Call.accepts]
      cases (hok.upload.data hs).2.1.symm.trans (hacc hyes)
    | listNoMemory =>
      rw [buildListBuffer_serverFiles]
      exact List.Sublist.refl _
    | _ => exact List.Sublist.refl _

theorem Handled.contents_sublist (h : Handled c c') (hok : ConnOk c)
    (hacc : c'.accepted = true → c.accepted = true) :
    c'.serverFiles.contents.Sublist c.serverFiles.contents := by
  cases h with
  | closed =>
    rw [closeAndCleanup_serverFiles]
  | steps h =>
    -- an upload is accepted in none of the steps
    have hrun := Chain.between (P := fun x => ConnOk x ∧
        x.serverFiles.contents.Sublist c.serverFiles.contents ∧ c.toConn.log <+: x.toConn.log)
      (fun x y hax ⟨hx, hxy⟩ hyc ⟨hok, hsub, hlog⟩ => by
        have hlog' := (Steps.progress hyc).log
        refine ⟨connOk_stable.step x y hx hok hxy, ?_, hlog.trans hxy.log⟩
        refine (hxy.contents_sublist hok fun hy => ?_).trans hsub
        exact Conn.accepted_mono hlog (hacc (Conn.accepted_mono hlog' hy))) h
      ⟨hok, .refl _, List.prefix_refl _⟩
    exact hrun.2.1

end Steps

/-! ### Runs -/

/-- Between two states an upload was accepted. -/
structure AcceptedAt (s s' : Server) (u u' : Conn) : Prop where
  conn : ∃ i : ConnId, s.conns[i]? = some u ∧ s'.conns[i]? = some u'
  before : u.accepted = false
  after : u'.accepted = true

/-- The names of the uploads that were accepted are in the list, and all its elements are
strings. -/
structure Survives (s s' : Server) : Prop where
  strings : none ∉ s'.serverFiles.contents
  listed : ∀ u u', AcceptedAt s s' u u' → some u'.client.filename ∈ s'.serverFiles.contents

/-- Where an upload is accepted, its name is in the list already, or can be added. -/
def Allocates (s s' : Server) : Prop :=
  ∀ u u', AcceptedAt s s' u u' → some u'.client.filename ∈ s.serverFiles.contents ∨
    NameAllocated u.script.mem s.serverFiles.full

section Runs

variable {s : Server}

/-- The connection whose upload is accepted is the one that was handled. -/
theorem AcceptedAt.handled {a : Action} (hm : MapInv s) {u u' : Conn}
    (h : AcceptedAt s (s.act a) u u') : u ∈ s.conns ∧ u.freed = false ∧
      ∃ c, Handled (s.ctx u) c ∧ u' = c.toConn ∧ (s.act a).serverFiles = c.serverFiles := by
  obtain ⟨i, hi, hi'⟩ := h.conn
  cases Server.act_moved hm hi' with
  | same hi₀ =>
    obtain rfl := Option.some.inj (hi.symm.trans hi₀)
    cases h.before.symm.trans h.after
  | new _ hconn =>
    rw [hconn] at h
    cases h.after
  | @own conn c _ hi₀ hlive hc hconn _ hfiles =>
    obtain rfl := Option.some.inj (hi.symm.trans hi₀)
    exact ⟨List.mem_of_getElem? hi, hlive, c, hc, hconn, hfiles⟩

/-- Where no upload is accepted, the list loses elements at most. -/
theorem Server.act_contents_sublist (hm : MapInv s)
    (hok : ∀ conn ∈ s.conns, ConnOk (s.ctx conn)) {a : Action}
    (h : ∀ u u', ¬ AcceptedAt s (s.act a) u u') :
    (s.act a).serverFiles.contents.Sublist s.serverFiles.contents := by
  have ht := Server.act_turn hm a
  generalize s.act a = s' at ht h
  have hput : ∀ {j : ConnId} {conn : Conn} {c : Ctx}, s.conns[j]? = some conn →
      Handled (s.ctx conn) c → s'.conns = (s.put j c).conns → s'.serverFiles = c.serverFiles →
      s'.serverFiles.contents.Sublist s.serverFiles.contents := by
    intro j conn c hj hc hconns hfiles
    rw [hfiles]
    refine hc.contents_sublist (hok conn (List.mem_of_getElem? hj)) fun hacc => ?_
    by_contra hno
    exact h conn c.toConn ⟨⟨j, hj, by rw [hconns, Server.put_conns_self c hj]⟩,
      Bool.eq_false_of_not_eq_true hno, hacc⟩
  cases ht with
  | idle => exact List.Sublist.refl _
  | accept => exact List.Sublist.refl _
  | handle hget hj hlive hc => exact hput hj (.steps hc) rfl rfl
  | error hev hget hj hlive => exact hput hj .closed rfl rfl
  | noMemory => exact List.Sublist.refl _
  | useAfterFree hev hget hj hlive hc => exact hput hj (.steps hc) rfl rfl

/-- **One action** keeps the list one of names, with those of the uploads that it accepts, exactly
where the allocations for these names succeed. -/
theorem survives_act_iff (hm : MapInv s) (hok : ∀ conn ∈ s.conns, ConnOk (s.ctx conn))
    (hnull : none ∉ s.serverFiles.contents) (a : Action) :
    Survives s (s.act a) ↔ Allocates s (s.act a) := by
  have hacc : ∀ {u u'}, AcceptedAt s (s.act a) u u' →
      ((some u'.client.filename ∈ (s.act a).serverFiles.contents ∧
          none ∉ (s.act a).serverFiles.contents) ↔
        some u'.client.filename ∈ s.serverFiles.contents ∨
          NameAllocated u.script.mem s.serverFiles.full) := by
    intro u u' h
    obtain ⟨hu, hlive, c, hc, rfl, hfiles⟩ := h.handled hm
    obtain ⟨d, hd⟩ := hc.acceptedIn hlive (hok u hu) h.before h.after
    have hiff := acceptUpload_listed_iff (d := d) (by rw [hd.before]; exact hnull)
    rw [hd.name, hd.mem, hd.before, ← hd.after, ← hfiles] at hiff
    exact hiff
  constructor
  · exact fun h u u' hu => (hacc hu).mp ⟨h.listed u u' hu, h.strings⟩
  · refine fun h => ⟨?_, fun u u' hu => ((hacc hu).mpr (h u u' hu)).1⟩
    by_cases hex : ∃ u u', AcceptedAt s (s.act a) u u'
    · obtain ⟨u, u', hu⟩ := hex
      exact ((hacc hu).mpr (h u u' hu)).2
    · exact fun hmem => hnull ((Server.act_contents_sublist hm hok fun u u' hu =>
        hex ⟨u, u', hu⟩).subset hmem)

end Runs

/-- **Accepted uploads are listed, and the list is one of names**, throughout a run, if and only if
at every acceptance the name is listed already or its allocations succeed. -/
theorem acceptance_survives_iff (k : Disk) (acts : List Action) :
    (∀ pre a post, acts = pre ++ a :: post →
        Survives ((Server.boot k).run pre) ((Server.boot k).run (pre ++ [a]))) ↔
      ∀ pre a post, acts = pre ++ a :: post →
        Allocates ((Server.boot k).run pre) ((Server.boot k).run (pre ++ [a])) := by
  refine Chain.forall_split_iff
    (I := fun pre => none ∉ ((Server.boot k).run pre).serverFiles.contents)
    List.not_mem_nil (fun pre a hs => hs.strings) (fun pre a hnull => ?_) acts
  rw [Server.run_concat]
  exact survives_act_iff ((MapInv.boot k).run pre)
    (connOk_stable.run (.boot k) (fun conn h => by cases h) pre) hnull a

/-- An upload whose `strdup` fails. -/
def namelessUpload : List Action :=
  [.accept 5 ⟨pushBack (ascii "PUT x\n" ++ sizeBytes 2 ++ ascii "hi") [], [.room 3], [],
      [true, false]⟩, .event 5 .onRead, .event 5 .onRead]

/-- The upload is answered OK, and the list holds a `NULL` in place of its name. -/
theorem not_survives_namelessUpload : ¬ ∀ k : Disk, k.Fresh → ∀ acts : List Action,
    ∀ pre a post, acts = pre ++ a :: post →
      Survives ((Server.boot k).run pre) ((Server.boot k).run (pre ++ [a])) := by
  intro h
  have hnull : none ∈ ((Server.boot bareDisk).run namelessUpload).serverFiles.contents := by
    decide +kernel
  exact (h bareDisk bareDisk_fresh namelessUpload (namelessUpload.take 2) (.event 5 .onRead) []
    rfl).strings hnull

/-! ### Behind the OK line -/

/-- The only reply of a connection `i` that ended as `c` is OK, and what is sent behind the OK line
starts with the size field and the payload: of the file that was opened, or of the names that were
listed. -/
inductive NotRetracted (s : Server) (acts : List Action) (i : ConnId) (c : Conn) : Prop
  | done {msg : List Byte} (h : c.replies = [(.ok, msg)])
      (hv : c.client.requestVerb = .put ∨ c.client.requestVerb = .delete)
      (hsent : c.sent = okLine) : NotRetracted s acts i c
  /-- The size is that of the opened file, and the payload its bytes, if nobody modifies it. -/
  | file {msg : List Byte} {f : Handle} {size : Nat} {bytes payload : List Byte}
      (h : c.replies = [(.ok, msg)]) (hv : c.client.requestVerb = .get)
      (hf : c.download = some f) (hopen : OpenedAs s acts i f size bytes)
      (hlen : payload.length = size) (hsent : c.sent <+: okLine ++ sizeBytes size ++ payload)
      (hbytes : Unmodified s acts i → c.sent <+: okLine ++ sizeBytes size ++ bytes) :
      NotRetracted s acts i c
  | names {msg : List Byte} {ws : List Path} (h : c.replies = [(.ok, msg)])
      (hv : c.client.requestVerb = .list) (hlist : ListedAs s acts i ws)
      (hsent : c.sent <+: okLine ++ sizeBytes (joinNames ws).length ++ joinNames ws) :
      NotRetracted s acts i c

/-- The buffer of a LIST is still to be allocated. -/
def BeforeList (c : Ctx) : Prop :=
  c.freed = false ∧ (c.client.state.Receiving ∨
    c.client.state = .sendOk ∧ c.client.requestVerb = .list)

/-- The next allocation does not fail before the buffer of a LIST is allocated, so that there is one
reply. -/
structure OneReply (c : Ctx) : Prop where
  mem : BeforeList c → c.script.mem.head? ≠ some false
  replies : c.replies.length ≤ 1

section Steps

variable {c c' : Ctx}

/-- Behind an OK line a reply is chosen only where the buffer of a LIST is missing. -/
theorem Choose.of_sendOk {st : Status} {msg : List Byte} (h : Choose c c' st msg)
    (hs : c.client.state = .sendOk) : st = .error ∧ c.client.requestVerb = .list ∧
      ∃ n, (buildListBuffer (sentLine c n)).1 = none ∧
        c' = (buildListBuffer (sentLine c n)).2 := by
  have hne : ∀ {t}, c.client.state = t → ConnState.sendOk ≠ t → False := fun h' hne =>
    hne (hs.symm.trans h')
  cases h with
  | listNoMemory _ hv _ hb => exact ⟨rfl, hv, _, hb, rfl⟩
  | bad hl => exact (hne hl.state (by simp)).elim
  | tooLong h' => exact (hne h' (by simp)).elim
  | list hl => exact (hne hl.state (by simp)).elim
  | deleteAbsent hl => exact (hne hl.state (by simp)).elim
  | deleteFailed hl => exact (hne hl.state (by simp)).elim
  | deleted hl => exact (hne hl.state (by simp)).elim
  | getMissing hl => exact (hne hl.state (by simp)).elim
  | getFailed hl => exact (hne hl.state (by simp)).elim
  | getOpened hl => exact (hne hl.state (by simp)).elim
  | sizeCut h' => exact (hne h' (by simp)).elim
  | openFailed h' => exact (hne h' (by simp)).elim
  | bodyCut h' => exact (hne h' (by simp)).elim
  | noFile h' => exact (hne h' (by simp)).elim
  | bodyFailed h' => exact (hne h' (by simp)).elim
  | extraByte h' => exact (hne h' (by simp)).elim
  | accepted h' => exact (hne h' (by simp)).elim

/-- While an OK line is being sent, nothing is allocated. -/
theorem Step.mem_of_sendOk (h : Step c c') (hs : c.client.state = .sendOk)
    (hs' : c'.client.state = .sendOk) (hc' : c'.freed = false) :
    c'.script.mem = c.script.mem := by
  have hne : ∀ {t}, c.client.state = t → ConnState.sendOk ≠ t → False := fun h' hne =>
    hne (hs.symm.trans h')
  cases h with
  | quiet hq =>
    cases hq with
    | read => exact Script.read_mem ..
    | write => exact Script.write_mem ..
    | pread => exact Script.file_mem _
  | receive hr =>
    cases hr with
    | header _ h' => exact (hne h' (by simp)).elim
    | size h' => exact (hne h' (by simp)).elim
    | body h' => exact (hne h' (by simp)).elim
  | begin hb => cases hb <;> cases hs'
  | choose hd =>
    obtain ⟨rfl, -⟩ := hd.of_sendOk hs
    cases hs'
  | send hsend =>
    cases hsend with
    | linePart => exact Script.write_mem ..
    | loadSize h' => exact (hne h' (by simp)).elim
    | sizePart h' => exact (hne h' (by simp)).elim
    | data h' => exact (hne h' (by simp)).elim
    | listPart h' => exact (hne h' (by simp)).elim
    | _ => cases hs'
  | close => cases hc'
  | fault hl => exact (hne hl.state (by simp)).elim

/-- Building the buffer of a LIST fails where its allocation does, or with undefined behaviour. -/
theorem buildListBuffer_none (h : (buildListBuffer c).1 = none) :
    (buildListBuffer c).2.fault = true ∨ c.script.mem.head? = some false := by
  rcases buildListBuffer_eq_none.mp h with hnone | hmem
  · have hmapM : (c.use .list).serverFiles.contents.mapM id = none := mapM_id_eq_none.mpr hnone
    unfold buildListBuffer
    dsimp only
    rw [hmapM]
    exact .inl rfl
  · exact .inr hmem

/-- **One step** keeps a connection at one reply, where the allocation of a LIST succeeds. -/
theorem OneReply.step (h : OneReply c) (hok : ConnOk c) (hc : c.freed = false) (hstep : Step c c')
    (hf : c'.fault = false) : OneReply c' := by
  refine ⟨fun ⟨hc', hbefore⟩ => ?_, ?_⟩
  · rcases hbefore with hs | ⟨hs, hv⟩
    · obtain ⟨hs', hmem, -⟩ := hstep.of_receiving hc' hs
      rw [hmem]
      exact h.mem ⟨hc, .inl hs'⟩
    · rcases hstep.sendOk hs with hs₀ | ⟨d, st, msg, hd, rfl⟩
      · have hv₀ := (hstep.sameHeader (by rw [hs₀]; simp)).2.verb.symm.trans hv
        rw [hstep.mem_of_sendOk hs₀ hs hc']
        exact h.mem ⟨hc, .inr ⟨hs₀, hv₀⟩⟩
      · change d.client.requestVerb = .list at hv
        change d.script.mem.head? ≠ some false
        cases hd with
        | list hl =>
          rw [takeLine_mem]
          exact h.mem ⟨hc, .inl (.inl hl.state)⟩
        | deleted hl =>
          rw [removeFileFromList_client] at hv
          cases hv
        | getOpened hl => cases hv
        | accepted hs₀ =>
          rw [acceptUpload_client] at hv
          cases (hok.upload.data hs₀).2.2.1.symm.trans hv
        | _ => cases hs
  · rcases hstep.replies with heq | ⟨d, st, msg, hd, rfl⟩
    · rw [heq]
      exact h.replies
    · by_cases hs : c.client.state = .sendOk
      · exfalso
        obtain ⟨-, hv, n, hb, rfl⟩ := hd.of_sendOk hs
        rcases buildListBuffer_none hb with hfault | hmem
        · exact Bool.noConfusion (hf.symm.trans hfault)
        · rw [sentLine_mem] at hmem
          exact h.mem ⟨hc, .inr ⟨hs, hv⟩⟩ hmem
      · -- the reply to a request that is received is the first one
        rw [Conn.replies_of_log (l := [.reply st msg]) rfl, hd.replies_nil hok.reply hs]
        exact Nat.le_refl 1

theorem oneReply_kept : Kept fun c => ConnOk c ∧ (c.fault = false → OneReply c) where
  step := fun c c' hc ⟨hok, h⟩ hstep => by
    refine ⟨connOk_stable.step c c' hc hok hstep, fun hf => ?_⟩
    have hf₀ : c.fault = false := Bool.eq_false_of_not_eq_true fun hf' =>
      Bool.noConfusion (hf.symm.trans (hstep.fault_mono hf'))
    exact (h hf₀).step hok hc hstep hf
  close := fun c hc ⟨hok, h⟩ => by
    refine ⟨connOk_stable.close c hc hok, fun hf => ⟨fun hb => (by cases hb.1), ?_⟩⟩
    rw [closeAndCleanup_replies]
    exact (h ((closeAndCleanup_fault c).symm.trans hf)).replies
  globals := fun c g hg hfault ⟨hok, h⟩ => by
    refine ⟨connOk_stable.globals c g hg hfault hok, fun hf => ?_⟩
    have hf₀ : c.fault = false := Bool.eq_false_of_not_eq_true fun hf' =>
      Bool.noConfusion (hf.symm.trans (hfault hf'))
    exact ⟨(h hf₀).mem, (h hf₀).replies⟩

/-- The size that a GET announces stays as it is. -/
theorem Step.fileSize (h : Step c c') (hs : c.client.state.Sending) :
    c'.client.fileSize = c.client.fileSize := by
  obtain ⟨h1, h2, h3, -⟩ := hs.ne
  cases h with
  | quiet hq => cases hq <;> rfl
  | receive hr =>
    cases hr with
    | header _ hs' => exact absurd hs' h1
    | size hs' => exact absurd hs' h2
    | body hs' => exact absurd hs' h3
  | begin hb =>
    cases hb with
    | put hl => exact absurd hl.state h1
    | upload hs' => exact absurd hs' h2
  | choose hd =>
    rcases hd.state with h' | h' | h' | ⟨h', -⟩
    · exact absurd h' h1
    · exact absurd h' h2
    · exact absurd h' h3
    · obtain ⟨-, -, n, -, rfl⟩ := hd.of_sendOk h'
      change (buildListBuffer (sentLine c n)).2.client.fileSize = _
      rw [buildListBuffer_client]
      rfl
  | send hsend =>
    cases hsend with
    | lineList =>
      simp only [Ctx.modifyEventLoop_client, Ctx.setClient_client, buildListBuffer_client]
      rfl
    | loadSize _ hl =>
      rw [loadGetSize_of_zero hl]
      rfl
    | _ => rfl
  | close hk =>
    rw [closeAndCleanup_client]
    cases hk <;> rfl
  | fault hl => exact absurd hl.state h1

/-- A connection with a reply to send keeps the size that it announces. -/
theorem Handled.fileSize (h : Handled c c') (hc : c.freed = false) (hok : ConnOk c)
    (hs : c.client.state.Sending) : c'.client.fileSize = c.client.fileSize := by
  have hrun := h.invariant (P := fun x => ConnOk x ∧ (x.freed = false → x.client.state.Sending) ∧
    x.client.fileSize = c.client.fileSize) hc ⟨hok, fun _ => hs, rfl⟩ ?_ ?_
  · exact hrun.2.2
  · rintro x y hx ⟨h1, h2, h3⟩ hxy
    have hok' := connOk_stable.step x y hx h1 hxy
    refine ⟨hok', fun hy => ?_, (hxy.fileSize (h2 hx)).trans h3⟩
    rcases y.client.state.cases with hs' | hs' | hs'
    · obtain ⟨hs', -⟩ := hxy.of_receiving hy hs'
      obtain ⟨n1, n2, n3, -⟩ := (h2 hx).ne
      rcases hs' with hs' | hs' | hs'
      · exact absurd hs' n1
      · exact absurd hs' n2
      · exact absurd hs' n3
    · exact hs'
    · cases hy.symm.trans (hok'.done hs')
  · rintro x hx ⟨h1, h2, h3⟩
    refine ⟨connOk_stable.close x hx h1, fun hf => (by cases hf), ?_⟩
    rw [closeAndCleanup_client]
    exact h3

/-- A connection with an OK that is not closed has a reply to send. -/
theorem Accepts.sending {v : Verb} (h : Accepts c.toConn v) (hok : ConnOk c)
    (hc : c.freed = false) : c.client.state.Sending := by
  obtain ⟨-, m, hm⟩ := h
  rcases c.client.state.cases with hs | hs | hs
  · cases hm.symm.trans (hok.reply.silent hs).2
  · exact hs
  · cases hc.symm.trans (hok.done hs)

/-- Behind the OK line of a GET stand the size that it announces and so many bytes at most. -/
theorem ReplyOk.size_next {a : Conn} (hr : ReplyOk a) (ha : Accepts a .get) :
    ∃ payload, payload.length = a.client.fileSize ∧
      a.sent <+: okLine ++ sizeBytes a.client.fileSize ++ payload := by
  obtain ⟨hv, m, hm⟩ := ha
  have hfull : ∀ bytes : List Byte, bytes.length ≤ a.client.fileSize →
      a.sent <+: okLine ++ (sizeBytes a.client.fileSize ++ bytes) →
        ∃ payload, payload.length = a.client.fileSize ∧
          a.sent <+: okLine ++ sizeBytes a.client.fileSize ++ payload := fun bytes hle hpre => by
    refine ⟨bytes ++ List.replicate (a.client.fileSize - bytes.length) 0, ?_, hpre.trans ?_⟩
    · rw [List.length_append, List.length_replicate]
      omega
    · rw [List.append_assoc, ← List.append_assoc (sizeBytes _) bytes, ← List.append_assoc okLine]
      exact List.prefix_append _ _
  have hnil : a.replies = [] → False := fun h' => by
    rw [hm] at h'
    cases h'
  have hline : a.client.state = .sendOk ∨ a.client.state = .sendError →
      a.sent <+: okLine ++ (sizeBytes a.client.fileSize ++ []) := fun hs => by
    obtain ⟨rs, st, msg, hl⟩ := hr.line hs
    obtain ⟨rfl, heq⟩ := singleton_eq_concat (hm.symm.trans hl.replies)
    obtain ⟨rfl, rfl⟩ := Prod.mk.inj heq
    rw [hl.sent]
    exact (List.take_prefix _ _).trans (List.prefix_append _ _)
  cases hs : a.client.state with
  | recvHeader => exact (hnil (hr.silent (.inl hs)).2).elim
  | recvPutSize => exact (hnil (hr.silent (.inr (.inl hs))).2).elim
  | recvPutData => exact (hnil (hr.silent (.inr (.inr hs))).2).elim
  | sendOk => exact hfull [] (Nat.zero_le _) (hline (.inl hs))
  | sendError => exact hfull [] (Nat.zero_le _) (hline (.inr hs))
  | sendGetSize =>
    refine hfull [] (Nat.zero_le _) ?_
    rw [(hr.size hs).1.sent, List.append_nil]
    exact (List.prefix_append_right_inj _).mpr (List.take_prefix _ _)
  | sendGetData =>
    obtain ⟨hle, bytes, hp, hlen⟩ := hr.data hs
    exact hfull bytes (hlen ▸ hle) (hp.sent ▸ List.prefix_rfl)
  | sendListData =>
    obtain ⟨_, -, -, -, hp⟩ := hr.list hs
    cases hv.symm.trans hp.verb
  | done =>
    rcases hr.done hs with ⟨rs, st, msg, hd⟩ | ⟨bytes, hp, hlen⟩ | ⟨_, hp⟩
    · obtain ⟨-, heq⟩ := singleton_eq_concat (hm.symm.trans hd.replies)
      obtain ⟨rfl, -⟩ := Prod.mk.inj heq
      exact absurd hv (hd.last rfl).1
    · exact hfull bytes (Nat.le_of_eq hlen) (hp.sent ▸ List.prefix_rfl)
    · cases hv.symm.trans hp.verb

/-- Behind an OK line that is sent there is one OK reply, if there is one reply. -/
theorem ReplyOk.ok_of_sent {a : Conn} (hr : ReplyOk a) (hle : a.replies.length ≤ 1)
    (h : okLine <+: a.sent) : ∃ m, a.replies = [(.ok, m)] := by
  match hreplies : a.replies with
  | [] =>
    rw [(hr.sent_nil hreplies).1] at h
    cases List.prefix_nil.mp h
  | [(.ok, m)] => exact ⟨m, rfl⟩
  | [(.error, m)] =>
    obtain ⟨hpre, -⟩ := hr.line_prefix hreplies (by simp)
    obtain ⟨t, ht⟩ := h.trans hpre
    cases congrArg List.head? ht
  | _ :: _ :: l =>
    rw [hreplies] at hle
    simp at hle

end Steps

/-- The first allocation for a connection behind `accept_connections` does not fail. -/
def FirstAllocated (s : Server) (acts : List Action) (i : ConnId) : Prop :=
  ∀ pre u, pre <+: acts → (s.run pre).conns[i]? = some u → u.log = [] →
    u.script.mem.head? ≠ some false

theorem oneReply_run (k : Disk) {acts : List Action} {i : ConnId} {conn : Conn}
    (hi : ((Server.boot k).run acts).conns[i]? = some conn)
    (hmem : FirstAllocated (Server.boot k) acts i) :
    ConnOk (((Server.boot k).run acts).ctx conn) ∧ (((Server.boot k).run acts).fault = false →
      OneReply (((Server.boot k).run acts).ctx conn)) := by
  induction acts using List.reverseRecOn generalizing conn with
  | nil => cases hi
  | append_singleton acts a ih =>
    have hmap := (MapInv.boot k).run acts
    have hnew := hmem (acts ++ [a]) conn (List.prefix_refl _) hi
    rw [Server.run_concat] at hi ⊢
    cases hi₀ : ((Server.boot k).run acts).conns[i]? with
    | some conn₀ =>
      exact oneReply_kept.lasting.act hmap a hi₀ hi
        (ih hi₀ fun pre u hpre => hmem pre u (hpre.trans (List.prefix_append _ _)))
    | none =>
      cases Server.act_moved hmap hi with
      | same hi₁ => cases hi₀.symm.trans hi₁
      | own _ hi₁ => cases hi₀.symm.trans hi₁
      | @new fd script _ hconn =>
        subst hconn
        exact ⟨connOk_stable.new fd script _, fun _ => ⟨fun _ => hnew rfl, Nat.zero_le _⟩⟩

/-- A file that is open was opened by one of the actions. -/
theorem exists_opening (k : Disk) {acts : List Action} {i : ConnId} {f : Handle}
    (hf : ((Server.boot k).run acts).download i = some f) :
    ∃ pre a post, acts = pre ++ a :: post ∧ ((Server.boot k).run pre).download i = none ∧
      ((Server.boot k).run (pre ++ [a])).download i = some f := by
  induction acts using List.reverseRecOn with
  | nil => cases hf
  | append_singleton acts a ih =>
    cases hd : ((Server.boot k).run acts).download i with
    | none => exact ⟨acts, a, [], rfl, hd, hf⟩
    | some g =>
      obtain rfl : g = f :=
        Option.some.inj ((Server.download_mono (.boot k) [a] hd).symm.trans hf)
      obtain ⟨pre, b, post, rfl, hnone, hsome⟩ := ih hd
      exact ⟨pre, b, post ++ [a], by simp, hnone, hsome⟩

/-- A file that is open was opened with one size and one content. -/
theorem OpenedAs.unique {k : Disk} {acts : List Action} {i : ConnId} {f : Handle} {n n' : Nat}
    {bs bs' : List Byte} (h : OpenedAs (Server.boot k) acts i f n bs)
    (h' : OpenedAs (Server.boot k) acts i f n' bs')
    (hf : ((Server.boot k).run acts).download i = some f) : n = n' ∧ bs = bs' := by
  obtain ⟨pre, a, post, heq, hnone, hsome⟩ := exists_opening k hf
  obtain ⟨h1, h2⟩ := h pre a post heq hnone hsome
  obtain ⟨h1', h2'⟩ := h' pre a post heq hnone hsome
  exact ⟨h1.symm.trans h1', h2.symm.trans h2'⟩

/-- **A download in a run** announces the size that its file had when it was opened, whoever
modifies the file later. -/
theorem fileSize_run (k : Disk) {acts : List Action} {i : ConnId} {conn : Conn}
    (hi : ((Server.boot k).run acts).conns[i]? = some conn) (ha : Accepts conn .get) :
    ∃ f bs, conn.download = some f ∧
      OpenedAs (Server.boot k) acts i f conn.client.fileSize bs := by
  induction acts using List.reverseRecOn generalizing conn with
  | nil => cases hi
  | append_singleton acts a ih =>
    have hmap := (MapInv.boot k).run acts
    have hi' := hi
    rw [Server.run_concat] at hi
    cases Server.act_moved hmap hi with
    | same hi₀ =>
      obtain ⟨f, bs, hf, hopen⟩ := ih hi₀ ha
      refine ⟨f, bs, hf, hopen.concat fun hn _ => ?_⟩
      rw [Server.download_eq hi₀, hf] at hn
      cases hn
    | new _ hconn =>
      obtain ⟨-, m, hm⟩ := ha
      rw [hconn] at hm
      cases hm
    | @own conn₀ c hfault hi₀ hlive h hconn hdisk hfiles hmono =>
      have hok := connOk_run k hi₀
      subst hconn
      by_cases hacc : Accepts conn₀ .get
      · obtain ⟨f, bs, hf, hopen⟩ := ih hi₀ hacc
        refine ⟨f, bs, Conn.download_mono (h.progress hlive).log hf, ?_⟩
        rw [h.fileSize hlive hok (Accepts.sending hacc hok hlive)]
        refine hopen.concat fun hn _ => ?_
        rw [Server.download_eq hi₀, hf] at hn
        cases hn
      · -- this event has opened the file
        obtain ⟨f, hsent⟩ := h.fileSent hlive hok (fun h' => absurd h' hacc) ha
        obtain ⟨-, -, hnone⟩ := (h.accepts hlive hfault hok (by simp) ha).resolve_left hacc
        rw [hsent.size]
        refine ⟨f, c.disk.bytes f, hsent.download,
    (OpenedAs.of_none (.boot k) ?_).concat fun _ _ => ?_⟩
        · rw [Server.download_eq hi₀]
          exact hnone
        · rw [Server.run_concat, hdisk]
          exact ⟨rfl, rfl⟩

/-- **Success is never retracted.** Once the whole OK line is sent on a connection, nothing of an
ERROR reply is: the bytes behind it are those of the size field and then of the payload, unless the
request is a LIST whose buffer cannot be allocated. -/
theorem ok_not_retracted (k : Disk) {acts : List Action} {i : ConnId} {conn : Conn}
    (hi : ((Server.boot k).run acts).conns[i]? = some conn)
    (hfault : ((Server.boot k).run acts).fault = false)
    (hmem : conn.client.requestVerb = .list → FirstAllocated (Server.boot k) acts i)
    (hsent : okLine <+: conn.sent) : NotRetracted (Server.boot k) acts i conn := by
  have hok := connOk_run k hi
  have hr : ReplyOk conn := hok.reply
  have hle : conn.replies.length ≤ 1 := by
    by_cases hv : conn.client.requestVerb = .list
    · exact ((oneReply_run k hi (hmem hv)).2 hfault).replies
    · rcases hr.replies_cases with h | ⟨r, h⟩ | ⟨h, -⟩
      · exact h ▸ Nat.zero_le 1
      · exact h ▸ Nat.le_refl 1
      · exact absurd h hv
  obtain ⟨m, hm⟩ := hr.ok_of_sent hle hsent
  have hline : conn.client.requestVerb ≠ .get → conn.client.requestVerb ≠ .list →
      conn.sent = okLine := fun h1 h2 =>
    (hr.line_prefix hm fun _ => ⟨h1, h2⟩).1.eq_of_length_le hsent.length_le
  cases hv : conn.client.requestVerb with
  | put => exact .done hm (.inl hv) (hline (by simp [hv]) (by simp [hv]))
  | delete => exact .done hm (.inr hv) (hline (by simp [hv]) (by simp [hv]))
  | get =>
    obtain ⟨f, bs, hf, hopen⟩ := fileSize_run k hi ⟨hv, m, hm⟩
    obtain ⟨payload, hlen, hpre⟩ := hr.size_next ⟨hv, m, hm⟩
    refine .file hm hv hf hopen hlen hpre fun hfile => ?_
    -- an unmodified file is sent as it was opened
    obtain ⟨f', n, bs', hfs, hopen', -⟩ := fileSent_run k hfile hi ⟨hv, m, hm⟩
    obtain rfl := Option.some.inj (hf.symm.trans hfs.download)
    obtain ⟨rfl, rfl⟩ := hopen.unique hopen' ((Server.download_eq hi).trans hf)
    rw [List.append_assoc]
    exact hfs.prefix_of hr
  | list =>
    obtain ⟨ws, hns, hlist⟩ := namesSent_run k hi ⟨hv, m, hm⟩
    refine .names hm hv hlist ?_
    rw [List.append_assoc]
    exact hns.prefix_of hr
  | unknown => exact absurd (Eq.trans hok.request.verb.symm hv) (verbOf_requestOf_ne _)

/-- A LIST on an empty server; `mem` says which allocations succeed. -/
def oneList (mem : List Bool) : List Action :=
  [.accept 5 ⟨pushBack (ascii "LIST\n") [], [.room 3, .room 32], [], mem⟩, .event 5 .onRead,
    .event 5 .onWrite]

theorem ok_not_retracted_oneList :
    ∃ conn, ((Server.boot bareDisk).run (oneList [])).conns = [conn] ∧
      NotRetracted (Server.boot bareDisk) (oneList []) 0 conn := by
  obtain ⟨conn, hconn⟩ := List.length_eq_one_iff.mp
    (show ((Server.boot bareDisk).run (oneList [])).conns.length = 1 by decide +kernel)
  have hsent : ∀ u ∈ ((Server.boot bareDisk).run (oneList [])).conns, okLine <+: u.sent := by
    decide +kernel
  have hi : ((Server.boot bareDisk).run (oneList [])).conns[0]? = some conn := by
    rw [hconn]
    rfl
  refine ⟨conn, hconn, ok_not_retracted bareDisk hi (by decide +kernel)
    (fun _ pre u hpre hu _ => ?_) (hsent conn (List.mem_of_getElem? hi))⟩
  have hall : ∀ k ≤ 3, ∀ u ∈ ((Server.boot bareDisk).run ((oneList []).take k)).conns,
      u.script.mem = [] := by decide +kernel
  rw [List.prefix_iff_eq_take.mp hpre] at hu
  rw [hall _ hpre.length_le u (List.mem_of_getElem? hu)]
  simp

/-- The buffer cannot be allocated: the ERROR reply is sent behind the OK line. -/
theorem not_ok_not_retracted_oneList : ¬ ∀ k : Disk, k.Fresh → ∀ (acts : List Action) (i : ConnId)
    (conn : Conn), ((Server.boot k).run acts).conns[i]? = some conn →
    ((Server.boot k).run acts).fault = false → okLine <+: conn.sent →
      NotRetracted (Server.boot k) acts i conn := by
  intro h
  obtain ⟨conn, hconn⟩ := List.length_eq_one_iff.mp
    (show ((Server.boot bareDisk).run (oneList [true, false])).conns.length = 1 by decide +kernel)
  have hall : ∀ u ∈ ((Server.boot bareDisk).run (oneList [true, false])).conns,
      okLine <+: u.sent ∧ u.replies = [(.ok, []), (.error, errBadRequest)] ∧
        u.sent = okLine ++ responseText .error errBadRequest := by decide +kernel
  obtain ⟨hsent, hreplies, -⟩ := hall conn (by rw [hconn]; exact List.mem_singleton_self _)
  cases h bareDisk bareDisk_fresh (oneList [true, false]) 0 conn (by rw [hconn]; rfl)
      (by decide +kernel) hsent with
  | done hr => cases hreplies.symm.trans hr
  | file hr => cases hreplies.symm.trans hr
  | names hr => cases hreplies.symm.trans hr

end FileServer
