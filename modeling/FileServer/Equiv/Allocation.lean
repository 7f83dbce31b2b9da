/-
  While allocations succeed.

  Then `server_files` is a list of names, without `NULL` elements; LIST never fails
  behind its OK line, so that a connection chooses at most one reply.
-/
import FileServer.Equiv.Reply

namespace FileServer

theorem alloc_fst (s : Script) : s.alloc.1 = true ↔ s.mem.head? ≠ some false := by
  unfold Script.alloc
  cases s.mem with
  | nil => simp
  | cons x mem => cases x <;> simp

theorem buildListBuffer_eq_none {c : Ctx} : (buildListBuffer c).1 = none ↔
    none ∈ c.serverFiles.contents ∨ c.script.mem.head? = some false := by
  unfold buildListBuffer Ctx.use
  dsimp only
  cases hm : c.serverFiles.contents.mapM id with
  | none => exact iff_of_true rfl (.inl (mapM_id_eq_none.mp hm))
  | some ws =>
    have hnull : none ∉ c.serverFiles.contents := fun h => by
      cases hm.symm.trans (mapM_id_eq_none.mpr h)
    change (if c.script.alloc.1 = true then some (listBuffer ws) else none) = none ↔ _
    split_ifs with ha
    · exact iff_of_false (fun h => by cases h)
        fun h => h.elim hnull ((alloc_fst c.script).mp ha)
    · exact iff_of_true rfl (.inr (not_not.mp fun h => ha ((alloc_fst c.script).mpr h)))

/-- The allocations of a connection succeed, and the list holds names. -/
structure MemOk (c : Ctx) : Prop where
  mem : c.script.mem = []
  names : ∃ ws, Names c.serverFiles ws

/-- The list is as it was. -/
theorem MemOk.congr {c c' : Ctx} (h : MemOk c) (hm : c'.script.mem = c.script.mem)
    (hs : c'.serverFiles = c.serverFiles) : MemOk c' :=
  ⟨hm.trans h.mem, by rw [hs]; exact h.names⟩

section Steps

variable {c c' : Ctx} {st : Status} {msg : List Byte}

theorem sentLine_mem (n : Nat) : (sentLine c n).script.mem = c.script.mem := Script.write_mem ..

theorem takeLine_mem (q : Request) : (takeLine c q).script.mem = c.script.mem := Script.read_mem ..

/-- A LIST buffer can be built. -/
theorem MemOk.buildListBuffer {n : Nat} (h : MemOk c) :
    (FileServer.buildListBuffer (sentLine c n)).1 ≠ none ∧
      (FileServer.buildListBuffer (sentLine c n)).2 = (sentLine c n).use .list := by
  obtain ⟨ws, hws⟩ := h.names
  obtain ⟨h1, h2⟩ := buildListBuffer_of_names (c := sentLine c n) hws ((sentLine_mem n).trans h.mem)
  exact ⟨by rw [h1]; simp, h2⟩

theorem Choose.memOk (h : Choose c c' st msg) (hm : MemOk c) : MemOk c' := by
  have hline : ∀ q, MemOk (takeLine c q) := fun q => hm.congr (takeLine_mem q) rfl
  have hfile : ∀ {d : Ctx}, d.script.file.2.mem = d.script.mem := fun {d} => Script.file_mem d.script
  cases h with
  | bad hl => exact hline _
  | tooLong => exact hm
  | list hl => exact hline _
  | deleteAbsent hl => exact hline _
  | deleteFailed hl => exact (hline _).congr hfile rfl
  | @deleted w i hl =>
    obtain ⟨ws, hws⟩ := hm.names
    generalize hd : ((takeLine c (.delete w)).sysUnlink (takeLine c (.delete w)).filepath).2 = d
    have hnames : Names d.serverFiles ws := by rw [← hd]; exact hws
    have hmem : d.script.mem = [] := by rw [← hd]; exact hfile.trans (hline (.delete w)).mem
    refine ⟨?_, _, (names_removeFileFromList hnames _).1⟩
    rw [removeFileFromList_script]
    exact hmem
  | getMissing hl => exact (hline _).congr hfile rfl
  | @getFailed w f hl =>
    exact (hline (.get w)).congr ((Script.file_mem _).trans (Script.file_mem _)) rfl
  | @getOpened w f size hl =>
    exact (hline (.get w)).congr ((Script.file_mem _).trans (Script.file_mem _)) rfl
  | sizeCut => exact hm.congr (Script.read_mem ..) rfl
  | openFailed => exact hm.congr hfile rfl
  | bodyCut => exact hm.congr (Script.read_mem ..) rfl
  | noFile => exact hm.congr (Script.read_mem ..) rfl
  | bodyFailed => exact hm.congr ((Script.file_mem _).trans (Script.read_mem ..)) rfl
  | extraByte => exact hm.congr (Script.read_mem ..) rfl
  | accepted =>
    obtain ⟨ws, hws⟩ := hm.names
    generalize hd : (readExtra c).2.note (.accept c.client.filename) = d
    have hnames : Names d.serverFiles ws := by rw [← hd]; exact hws
    have hmem : d.script.mem = [] := by rw [← hd]; exact (Script.read_mem ..).trans hm.mem
    obtain ⟨h1, -, h2⟩ := names_addFileToList hnames hmem c.client.filename
    have hacc : acceptUpload c = addFileToList d c.client.filename := by rw [← hd]; rfl
    rw [hacc]
    exact ⟨by rw [h2]; exact hmem, _, h1⟩
  | listNoMemory => exact absurd ‹_› hm.buildListBuffer.1

theorem Close.memOk (h : Close c c') (hm : MemOk c) : MemOk c' := by
  cases h with
  | header => exact hm.congr (Script.read_mem ..) rfl
  | noFile => exact hm
  | pread => exact hm.congr (Script.file_mem _) rfl
  | got => exact hm.congr rfl rfl
  | data => exact hm.congr ((Script.write_mem ..).trans (Script.file_mem _)) rfl
  | _ => exact hm.congr (Script.write_mem ..) rfl

theorem Send.memOk (h : Send c c') (hm : MemOk c) : MemOk c' := by
  cases h with
  | lineList =>
    rw [hm.buildListBuffer.2]
    exact hm.congr (Script.write_mem ..) rfl
  | loadSize hs hl => rw [loadGetSize_of_zero hl]; exact hm.congr rfl rfl
  | data => exact hm.congr ((Script.write_mem ..).trans (Script.file_mem _)) rfl
  | _ => exact hm.congr (Script.write_mem ..) rfl

theorem closeAndCleanup_memOk {k : Ctx} (hm : MemOk k) : MemOk (closeAndCleanup k) := by
  refine hm.congr ?_ (closeAndCleanup_serverFiles k)
  rw [closeAndCleanup_eq]
  split_ifs
  · exact Script.file_mem _
  · rfl

theorem MemOk.step (hm : MemOk c) (h : Step c c') : MemOk c' := by
  cases h with
  | quiet h =>
    cases h with
    | read => exact hm.congr (Script.read_mem ..) rfl
    | write => exact hm.congr (Script.write_mem ..) rfl
    | pread => exact hm.congr (Script.file_mem _) rfl
  | receive h =>
    cases h with
    | header => exact hm.congr (Script.read_mem ..) rfl
    | size => exact hm.congr (Script.read_mem ..) rfl
    | body => exact hm.congr ((Script.file_mem _).trans (Script.read_mem ..)) rfl
  | begin h =>
    cases h with
    | put => exact hm.congr (Script.read_mem ..) rfl
    | upload => exact hm.congr (Script.file_mem _) rfl
  | choose h => exact (h.memOk hm).congr rfl rfl
  | send h => exact h.memOk hm
  | close h => exact closeAndCleanup_memOk (h.memOk hm)
  | fault => exact hm.congr (Script.read_mem ..) rfl

/-- A connection chooses one reply. -/
theorem Choose.first (h : Choose c c' st msg) (hr : ReplyOk c.toConn) (hm : MemOk c) :
    c'.replies = [] ∧ c'.sent = [] := by
  obtain ⟨rs, hreplies, hsent, -, hrs⟩ := h.sameReply hr
  obtain rfl := hrs.resolve_right fun ⟨_, n, hn⟩ => hm.buildListBuffer.1 hn
  exact ⟨hreplies, hsent⟩

theorem replies_of_write {a b : Conn} {bs : List Byte} {r : WriteResult}
    (h : b.log = a.log ++ [.write bs r]) : b.replies = a.replies := by
  rw [Conn.replies_of_log h]
  exact List.append_nil _

theorem replies_of_single {a b : Conn} {x : Call} (h : b.log = a.log ++ [x])
    (hx : x.reply? = none) : b.replies = a.replies := by
  rw [Conn.replies_of_log h, List.filterMap_cons_none hx]
  exact List.append_nil _

theorem Send.replies (h : Send c c') : c'.replies = c.replies := by
  have hline : ∀ n, (sentLine c n).replies = c.replies := fun n =>
    replies_of_write (Ctx.sysWrite_log c _)
  have hmod : ∀ {a b : Conn}, b.log = a.log ++ [.modify .write] → b.replies = a.replies :=
    fun h => replies_of_single h rfl
  cases h with
  | @linePart n => exact (hmod (a := (sentLine c n).toConn) rfl).trans (hline n)
  | @lineGet n => exact (hmod (a := (sentLine c n).toConn) rfl).trans (hline n)
  | @lineList n => exact (hmod (a := (sentLine c n).toConn) (by simp)).trans (hline n)
  | loadSize hs hl => rw [loadGetSize_of_zero hl]; rfl
  | sizePart => exact hline _
  | @sizeAll n => exact (hmod (a := (sentLine c n).toConn) rfl).trans (hline n)
  | data => exact replies_of_write (Ctx.sysWrite_log _ _)
  | listPart => exact replies_of_write (Ctx.sysWrite_log _ _)

theorem Close.replies (h : Close c c') : c'.replies = c.replies := by
  cases h with
  | header => exact replies_of_single (Ctx.sysRead_log c _) rfl
  | noFile => rfl
  | pread => rfl
  | got => rfl
  | _ => exact replies_of_write (Ctx.sysWrite_log _ _)

/-- Only the choice of a reply adds one. -/
theorem Step.replies (h : Step c c') :
    c'.replies = c.replies ∨ ∃ d st msg, Choose c d st msg ∧ c' = fillResponse d st msg := by
  cases h with
  | quiet h =>
    cases h with
    | read => exact .inl (replies_of_single (Ctx.sysRead_log c _) rfl)
    | write => exact .inl (replies_of_write (Ctx.sysWrite_log c _))
    | pread => exact .inl rfl
  | receive h => cases h <;> exact .inl (replies_of_single rfl rfl)
  | begin h =>
    cases h with
    | @put w hl =>
      exact .inl ((replies_of_single (a := (takeLine c (.put w)).toConn) rfl rfl).trans
        (replies_of_single rfl rfl))
    | upload => exact .inl (replies_of_single rfl rfl)
  | choose h => exact .inr ⟨_, _, _, h, rfl⟩
  | send h => exact .inl h.replies
  | @close k h => exact .inl ((closeAndCleanup_replies k).trans h.replies)
  | fault => exact .inl (replies_of_single rfl rfl)

theorem Step.replies_le (h : Step c c') (hr : ReplyOk c.toConn) (hm : MemOk c)
    (hle : c.replies.length ≤ 1) : c'.replies.length ≤ 1 := by
  rcases h.replies with heq | ⟨d, st, msg, hd, rfl⟩
  · rw [heq]
    exact hle
  · have hlog : (fillResponse d st msg).log = d.log ++ [.reply st msg] := rfl
    rw [Conn.replies_of_log hlog, (hd.first hr hm).1]
    exact Nat.le_refl 1

end Steps

/-! ### Runs -/

/-- The script of a new connection has allocations succeed. -/
def Action.Plenty : Action → Prop
  | .accept _ script => script.mem = []
  | .event _ _ => True

/-- All allocations succeed: the list holds names, and no connection has two replies. -/
structure Plenty (s : Server) : Prop where
  names : ∃ ws, Names s.serverFiles ws
  conns : ∀ conn ∈ s.conns, conn.script.mem = [] ∧ conn.replies.length ≤ 1

namespace Plenty

variable {s : Server}

theorem put (h : Plenty s) {c : Ctx} (hm : MemOk c) (hr : c.replies.length ≤ 1) (i : ConnId) :
    Plenty (s.put i c) :=
  ⟨hm.names, fun conn hmem => by
    rcases List.mem_or_eq_of_mem_set hmem with hmem | rfl
    · exact h.conns conn hmem
    · exact ⟨hm.mem, hr⟩⟩

theorem steps (h : Plenty s) (hok : ∀ conn ∈ s.conns, ConnOk (s.ctx conn)) {conn : Conn} {c : Ctx}
    (hmem : conn ∈ s.conns) (hsteps : Steps (s.ctx conn) c) : MemOk c ∧ c.replies.length ≤ 1 := by
  obtain ⟨hm, hr⟩ := h.conns conn hmem
  have hrun := Chain.invariant
    (P := fun c : Ctx => ConnOk c ∧ MemOk c ∧ c.replies.length ≤ 1)
    (fun x y ⟨hx, hxy⟩ ⟨h1, h2, h3⟩ => ⟨connOk_stable.step x y hx h1 hxy, h2.step hxy,
      hxy.replies_le h1.reply h2 h3⟩) hsteps ⟨hok conn hmem, ⟨hm, h.names⟩, hr⟩
  exact hrun.2

theorem act (h : Plenty s) (hmap : MapInv s) (hok : ∀ conn ∈ s.conns, ConnOk (s.ctx conn))
    {a : Action} (ha : a.Plenty) : Plenty (s.act a) := by
  have ht := Server.act_turn hmap a
  generalize s.act a = s' at ht
  cases ht with
  | idle => exact h
  | accept hfd hrx htx hfx hmem =>
    refine ⟨h.names, fun conn hconn => ?_⟩
    rcases List.mem_append.mp hconn with hconn | hconn
    · exact h.conns conn hconn
    · obtain rfl := List.mem_singleton.mp hconn
      rw [(hmem ha).2]
      exact ⟨ha, Nat.zero_le _⟩
  | handle hget hi hlive hsteps =>
    obtain ⟨h1, h2⟩ := h.steps hok (List.mem_of_getElem? hi) hsteps
    exact h.put h1 h2 _
  | @error fd ev i conn hev hget hi hlive =>
    have hm : MemOk (s.ctx conn) := ⟨(h.conns conn (List.mem_of_getElem? hi)).1, h.names⟩
    refine h.put (closeAndCleanup_memOk hm) ?_ _
    rw [closeAndCleanup_replies]
    exact (h.conns conn (List.mem_of_getElem? hi)).2
  | noMemory hmem => exact absurd ha hmem
  | @useAfterFree fd ev i conn c hev hget hi hlive hsteps =>
    obtain ⟨h1, h2⟩ := h.steps hok (List.mem_of_getElem? hi) hsteps
    have := h.put h1 h2 i
    exact ⟨this.names, this.conns⟩

theorem run (h : Plenty s) (hmap : MapInv s) (hok : ∀ conn ∈ s.conns, ConnOk (s.ctx conn))
    {acts : List Action} (ha : ∀ a ∈ acts, a.Plenty) : Plenty (s.run acts) := by
  induction acts generalizing s with
  | nil => exact h
  | cons a acts ih =>
    rw [List.forall_mem_cons] at ha
    exact ih (h.act hmap hok ha.1) (hmap.act a) (connOk_stable.turn (Server.act_turn hmap a) hok)
      ha.2

theorem boot (k : Disk) : Plenty (Server.boot k) :=
  ⟨⟨[], rfl⟩, fun conn hmem => by cases hmem⟩

end Plenty

end FileServer
