/-
  The connection record between two events.

  `RecordOk` lists what `client_t` satisfies whenever the event loop has the control:
  which counters are below which limits, when a file is open and when the LIST buffer
  is allocated.  What depends on the state alone is kept by every step
  (`buffersOk_stable`); that a size field or a body is incomplete holds only where a
  handler returns, and comes from its ways out.
-/
import FileServer.Equiv.Event

namespace FileServer

/-! ### Files and buffers -/

/-- A download is on its way. -/
def Client.Downloads (k : Client) : Prop :=
  k.requestVerb = .get ∧
    (k.state = .sendOk ∨ k.state = .sendGetSize ∨ k.state = .sendGetData)

/-- The states in which `file_fd` is open. -/
def Client.HasFile (k : Client) : Prop := k.state = .recvPutData ∨ k.Downloads

/-- The file is open and the LIST buffer allocated exactly where they are needed; a destroyed
connection has neither. -/
structure BuffersOk (c : Ctx) : Prop where
  file : c.freed = false → (c.client.fileFd.isSome ↔ c.client.HasFile)
  list : c.freed = false → (c.client.listBuf.isSome ↔ c.client.state = .sendListData)
  freed : c.freed = true → c.client.fileFd = none ∧ c.client.listBuf = none

section Steps

variable {c c' : Ctx} {st : Status} {msg : List Byte}

theorem BuffersOk.congr (h : BuffersOk c) (hf : c'.freed = c.freed)
    (hfd : c'.client.fileFd = c.client.fileFd) (hlist : c'.client.listBuf = c.client.listBuf)
    (hs : c'.client.state = c.client.state)
    (hv : c'.client.requestVerb = c.client.requestVerb) : BuffersOk c' where
  file := by
    unfold Client.HasFile Client.Downloads
    rw [hf, hfd, hs, hv]
    exact h.file
  list := by rw [hf, hlist, hs]; exact h.list
  freed := by rw [hf, hfd, hlist]; exact h.freed

/-- No file is open while a header or a size field is received. -/
theorem BuffersOk.no_file (h : BuffersOk c) (hc : c.freed = false)
    (hs : c.client.state = .recvHeader ∨ c.client.state = .recvPutSize) :
    c.client.fileFd = none := by
  have hno : ¬ c.client.HasFile := by
    rintro (hs' | ⟨-, hs'⟩) <;> rcases hs with hs | hs <;> simp [hs] at hs'
  rw [← h.file hc] at hno
  simpa using hno

theorem BuffersOk.no_list (h : BuffersOk c) (hc : c.freed = false)
    (hs : c.client.state ≠ .sendListData) : c.client.listBuf = none := by
  have hno : ¬ c.client.listBuf.isSome := fun hl => hs ((h.list hc).mp hl)
  simpa using hno

/-- The verb of an upload is PUT. -/
theorem ConnOk.data_verb (hok : ConnOk c) (hs : c.client.state = .recvPutData) :
    c.client.requestVerb = .put := (hok.upload.data hs).2.2.1

/-- The file is open behind the choice of a reply exactly if a GET was accepted. -/
theorem Choose.file (h : Choose c c' st msg) (hok : ConnOk c) (hb : BuffersOk c)
    (hc : c.freed = false) :
    c'.client.fileFd.isSome ↔ st = .ok ∧ c'.client.requestVerb = .get := by
  have hline : ∀ {q : Request}, LineRead c q → (takeLine c q).client.fileFd = none :=
    fun hl => hb.no_file hc (.inl hl.state)
  -- an ERROR reply goes with a closed file
  have herror : ∀ {d : Ctx}, d.client.fileFd = none →
      (d.client.fileFd.isSome ↔ Status.error = .ok ∧ d.client.requestVerb = .get) := by
    intro d hd
    simp [hd]
  cases h with
  | bad hl => exact herror (hline hl)
  | tooLong hs => exact herror (hb.no_file hc (.inl hs))
  | list hl =>
    have hv : (takeLine c .list).client.requestVerb = .list := rfl
    simp [hline hl, hv]
  | deleteAbsent hl => exact herror (hline hl)
  | deleteFailed hl => exact herror (hline hl)
  | @deleted w i hl =>
    have hv : (takeLine c (.delete w)).client.requestVerb = .delete := rfl
    simp [hline hl, hv]
  | getMissing hl ho => exact herror ho
  | getFailed hl => exact herror rfl
  | @getOpened w f size hl ho =>
    refine iff_of_true ?_ ⟨rfl, rfl⟩
    change (openDownload (takeLine c (.get w))).1.isSome = true
    rw [ho]
    rfl
  | sizeCut hs => exact herror (hb.no_file hc (.inr hs))
  | openFailed hs hlen ho => exact herror ho
  | bodyCut => exact herror rfl
  | noFile => exact herror rfl
  | bodyFailed => exact herror rfl
  | extraByte => exact herror rfl
  | accepted hs =>
    rw [acceptUpload_client]
    simp [hok.data_verb hs]
  | listNoMemory hs hv =>
    have hno : ¬ c.client.HasFile := by
      rintro (hs' | ⟨hv', -⟩)
      · simp [hs] at hs'
      · simp [hv] at hv'
    rw [← hb.file hc] at hno
    refine herror ?_
    rw [buildListBuffer_client]
    change c.client.fileFd = none
    simpa using hno

theorem Choose.listBuf (h : Choose c c' st msg) : c'.client.listBuf = c.client.listBuf := by
  cases h with
  | deleted => rw [removeFileFromList_client]; rfl
  | accepted => rw [acceptUpload_client]
  | listNoMemory => rw [buildListBuffer_client]; rfl
  | _ => rfl

theorem fillResponse_buffersOk (hfile : c.client.fileFd.isSome ↔
    st = .ok ∧ c.client.requestVerb = .get) (hlist : c.client.listBuf = none)
    (hc : c.freed = false) : BuffersOk (fillResponse c st msg) where
  file := fun _ => by
    have hkeep : (fillResponse c st msg).client.fileFd = c.client.fileFd ∧
        (fillResponse c st msg).client.requestVerb = c.client.requestVerb := ⟨rfl, rfl⟩
    rw [Client.HasFile, Client.Downloads, fillResponse_state, hkeep.1, hkeep.2, hfile]
    cases st <;> simp
  list := fun _ => by
    have hkeep : (fillResponse c st msg).client.listBuf = none := hlist
    rw [hkeep, fillResponse_state]
    cases st <;> simp
  freed := fun hf => by cases hc.symm.trans hf

theorem BuffersOk.send (h : BuffersOk c) (hok : ConnOk c) (hc : c.freed = false)
    (hs : Send c c') : BuffersOk c' := by
  cases hs with
  | linePart => exact h.congr rfl rfl rfl rfl rfl
  | @lineGet n hs hv =>
    have hopen : c.client.fileFd.isSome := (h.file hc).mpr (.inr ⟨hv, .inl hs⟩)
    refine ⟨fun _ => iff_of_true hopen (.inr ⟨hv, .inr (.inl rfl)⟩), fun _ => ?_,
      fun hf => (by cases hc.symm.trans hf)⟩
    have hnone : c.client.listBuf = none := h.no_list hc (by simp [hs])
    exact iff_of_false (by simp [sentLine, writeLine, hnone]) (by simp)
  | @lineList n b hs hv =>
    have hno : ¬ c.client.HasFile := by
      rintro (hs' | ⟨hv', -⟩)
      · simp [hs] at hs'
      · simp [hv] at hv'
    refine ⟨fun _ => iff_of_false ?_ ?_, fun _ => iff_of_true rfl rfl, fun hf => ?_⟩
    · rw [← h.file hc] at hno
      simpa [sentLine, writeLine] using hno
    · rintro (hs' | ⟨-, hs'⟩) <;> simp at hs'
    · rw [Ctx.modifyEventLoop_freed, Ctx.setClient_freed, buildListBuffer_freed] at hf
      cases hc.symm.trans hf
  | loadSize hs hl =>
    rw [loadGetSize_of_zero hl]
    exact h.congr rfl rfl rfl rfl rfl
  | sizePart => exact h.congr rfl rfl rfl rfl rfl
  | @sizeAll n hs =>
    have hv : c.client.requestVerb = .get := (hok.reply.size hs).1.verb
    have hopen : c.client.fileFd.isSome := (h.file hc).mpr (.inr ⟨hv, .inr (.inl hs)⟩)
    refine ⟨fun _ => iff_of_true hopen (.inr ⟨hv, .inr (.inr rfl)⟩), fun _ => ?_,
      fun hf => (by cases hc.symm.trans hf)⟩
    have hnone : c.client.listBuf = none := h.no_list hc (by simp [hs])
    exact iff_of_false (by simp [sentLine, writeLine, hnone]) (by simp)
  | data => exact h.congr rfl rfl rfl rfl rfl
  | listPart => exact h.congr rfl rfl rfl rfl rfl

theorem closeAndCleanup_buffersOk (c : Ctx) : BuffersOk (closeAndCleanup c) where
  file := fun hf => by cases hf
  list := fun hf => by cases hf
  freed := fun _ => by
    rw [closeAndCleanup_client]
    exact ⟨rfl, rfl⟩

theorem BuffersOk.step (h : BuffersOk c) (hok : ConnOk c) (hc : c.freed = false)
    (hstep : Step c c') : BuffersOk c' := by
  cases hstep with
  | quiet hq => cases hq <;> exact h.congr rfl rfl rfl rfl rfl
  | receive hr =>
    cases hr with
    | header => exact h.congr rfl rfl rfl rfl rfl
    | size => exact h.congr rfl rfl rfl rfl rfl
    | body => exact h.congr rfl rfl rfl rfl rfl
  | begin hb =>
    cases hb with
    | put hl =>
      have hnone := h.no_file hc (.inl hl.state)
      have hlist := h.no_list hc (by simp [hl.state])
      refine ⟨fun _ => iff_of_false ?_ ?_, fun _ => iff_of_false ?_ (by simp), fun hf => ?_⟩
      · simp [takeLine, storeHeader, noteRequest, hnone]
      · rintro (hs' | ⟨-, hs'⟩) <;> simp at hs'
      · simp [takeLine, storeHeader, noteRequest, hlist]
      · cases hc.symm.trans hf
    | @upload f hs hlen ho =>
      have hlist := h.no_list hc (by simp [hs])
      refine ⟨fun _ => iff_of_true ?_ (.inl rfl), fun _ => iff_of_false ?_ (by simp [setState]),
        fun hf => (by cases hc.symm.trans hf)⟩
      · change (openUploadFile c).1.isSome = true
        rw [ho]
        rfl
      · simp [setState, openUploadFile, hlist]
  | choose hch =>
    have hlist : c.client.listBuf = none := h.no_list hc fun hs => by
      have hstate := hch.state
      simp [hs] at hstate
    exact fillResponse_buffersOk (hch.file hok h hc) (hch.listBuf.trans hlist)
      (hch.freed.trans hc)
  | send hs => exact h.send hok hc hs
  | close => exact closeAndCleanup_buffersOk _
  | @fault w hl =>
    have hnone : (takeLine c (.delete w)).client.fileFd = none := h.no_file hc (.inl hl.state)
    have hlist : (takeLine c (.delete w)).client.listBuf = none := h.no_list hc (by simp [hl.state])
    have hstate : (takeLine c (.delete w)).client.state = .recvHeader := hl.state
    refine ⟨fun _ => iff_of_false (by simp [hnone]) ?_, fun _ => by simp [hlist, hstate],
      fun hf => (by cases hc.symm.trans hf)⟩
    rintro (hs' | ⟨-, hs'⟩) <;> simp [hstate] at hs'

end Steps

theorem buffersOk_stable : Stable fun c => ConnOk c ∧ BuffersOk c where
  new := fun fd script g => ⟨connOk_stable.new fd script g,
    fun _ => iff_of_false (by simp [newConn, clientCreate])
      (by rintro (h | ⟨-, h | h | h⟩) <;> cases h),
    fun _ => iff_of_false (by simp [newConn, clientCreate]) (fun h => by cases h),
    fun h => (by cases h)⟩
  step := fun c c' hc ⟨hok, h⟩ hstep =>
    ⟨connOk_stable.step c c' hc hok hstep, h.step hok hc hstep⟩
  close := fun c hc ⟨hok, _⟩ => ⟨connOk_stable.close c hc hok, closeAndCleanup_buffersOk c⟩
  globals := fun c g hg hf ⟨hok, h⟩ =>
    ⟨connOk_stable.globals c g hg hf hok, h.congr rfl rfl rfl rfl rfl⟩

/-! ### Openings -/

/-- The file that a call opened. -/
def Call.opening : Call → Option Handle
  | .openWrite _ h => h
  | .openRead _ h => h
  | _ => none

/-- The files that a connection has opened. -/
def Conn.openings (c : Conn) : List Handle := c.log.filterMap Call.opening

/-- A connection opens at most one file, and none before its request is known. -/
structure OpensOk (c : Ctx) : Prop where
  one : c.openings.length ≤ 1
  first : c.client.state = .recvHeader ∨ c.client.state = .recvPutSize → c.openings = []

theorem Conn.openings_of_log {a b : Conn} {l : List Call} (h : b.log = a.log ++ l) :
    b.openings = a.openings ++ l.filterMap Call.opening := by
  rw [openings, h, List.filterMap_append]; rfl

theorem Conn.openings_eq {a b : Conn} {l : List Call} (h : b.log = a.log ++ l)
    (hl : l.filterMap Call.opening = []) : b.openings = a.openings := by
  rw [openings_of_log h, hl, List.append_nil]

theorem Conn.openings_congr {a b : Conn} (h : b.log = a.log) : b.openings = a.openings :=
  congrArg (List.filterMap Call.opening) h

section Steps

variable {c c' : Ctx} {st : Status} {msg : List Byte}

/-- A reply is chosen after a GET opened its file, or without opening one. -/
theorem Choose.openings (h : Choose c c' st msg) : c'.openings = c.openings ∨
    c.client.state = .recvHeader ∧ ∃ f, c'.openings = c.openings ++ [f] := by
  have hget : ∀ {w : Path} {f : Handle}, (openDownload (takeLine c (.get w))).1 = some f →
      (openDownload (takeLine c (.get w))).2.openings = c.openings ++ [f] := by
    intro w f ho
    have hlog : (openDownload (takeLine c (.get w))).2.log = c.log ++ [.read (c.sysRead 1).1,
        .openRead (takeLine c (.get w)).filepath (openDownload (takeLine c (.get w))).1] :=
      List.append_assoc c.log [_] [_]
    rw [Conn.openings_of_log hlog, ho]
    rfl
  cases h with
  | tooLong => exact .inl rfl
  | deleteFailed => exact .inl (Conn.openings_eq (List.append_assoc c.log [_] [_]) rfl)
  | deleted =>
    left
    refine (Conn.openings_congr (removeFileFromList_log ..)).trans ?_
    exact Conn.openings_eq (List.append_assoc c.log [_] [_]) rfl
  | @getMissing w hl ho =>
    left
    have hlog : (openDownload (takeLine c (.get w))).2.log = c.log ++ [.read (c.sysRead 1).1,
        .openRead (takeLine c (.get w)).filepath (openDownload (takeLine c (.get w))).1] :=
      List.append_assoc c.log [_] [_]
    exact Conn.openings_eq hlog (by rw [ho]; rfl)
  | getFailed hl ho => exact .inr ⟨hl.state, _, (Conn.openings_congr (by rfl)).trans (hget ho)⟩
  | getOpened hl ho => exact .inr ⟨hl.state, _, (Conn.openings_congr (by rfl)).trans (hget ho)⟩
  | openFailed hs hlen ho =>
    left
    have hlog : (openUploadFile c).2.log
        = c.log ++ [.openWrite c.filepath (openUploadFile c).1] := rfl
    exact Conn.openings_eq hlog (by rw [ho]; rfl)
  | accepted => exact .inl (Conn.openings_eq (acceptUpload_log c) rfl)
  | listNoMemory =>
    left
    refine (Conn.openings_congr (buildListBuffer_log _)).trans ?_
    exact Conn.openings_eq (l := [.write _ _]) rfl rfl
  | _ => exact .inl (Conn.openings_eq (l := [_]) rfl rfl)

/-- Nothing else that is sent or found on the way to a close opens a file. -/
theorem Send.openings (h : Send c c') : c'.openings = c.openings := by
  have hline : ∀ {n : Nat} {i : Interest} {d : Ctx}, d.log = (sentLine c n).log →
      (d.modifyEventLoop i).openings = c.openings := by
    intro n i d hd
    have hmod : (d.modifyEventLoop i).openings = d.openings := Conn.openings_eq (l := [_]) rfl rfl
    refine hmod.trans ((Conn.openings_congr hd).trans ?_)
    exact Conn.openings_eq (l := [.write _ _]) rfl rfl
  cases h with
  | @linePart n => exact hline (n := n) rfl
  | @lineGet n => exact hline (n := n) rfl
  | @lineList n => exact hline (n := n) (by rw [Ctx.setClient_log, buildListBuffer_log])
  | loadSize hs hl => rw [loadGetSize_of_zero hl]; rfl
  | @sizeAll n => exact hline (n := n) rfl
  | _ => exact Conn.openings_eq (l := [.write _ _]) rfl rfl

theorem Close.openings (h : Close c c') : c'.openings = c.openings := by
  cases h with
  | header => exact Conn.openings_eq (l := [_]) rfl rfl
  | noFile => rfl
  | pread => rfl
  | got => rfl
  | _ => exact Conn.openings_eq (l := [.write _ _]) rfl rfl

theorem closeAndCleanup_openings (k : Ctx) : (closeAndCleanup k).openings = k.openings := by
  refine Conn.openings_eq (closeAndCleanup_log k) ?_
  split_ifs <;> rfl

theorem OpensOk.congr (h : OpensOk c) (ho : c'.openings = c.openings)
    (hs : c'.client.state = .recvHeader ∨ c'.client.state = .recvPutSize →
      c.client.state = .recvHeader ∨ c.client.state = .recvPutSize) : OpensOk c' where
  one := ho ▸ h.one
  first := fun hs' => ho.trans (h.first (hs hs'))

theorem Step.opensOk (hstep : Step c c') (h : OpensOk c) : OpensOk c' := by
  cases hstep with
  | quiet hq =>
    cases hq with
    | read => exact h.congr (Conn.openings_eq (l := [_]) rfl rfl) id
    | write => exact h.congr (Conn.openings_eq rfl rfl) id
    | pread => exact h.congr rfl id
  | receive hr => cases hr <;> exact h.congr (Conn.openings_eq (l := [_]) rfl rfl) id
  | begin hb =>
    cases hb with
    | put hl =>
      exact h.congr (Conn.openings_eq (List.append_assoc c.log [_] [_]) rfl)
        fun _ => .inl hl.state
    | @upload f hs hlen ho =>
      have hlog : (setState (openUploadFile c).2 .recvPutData).log
          = c.log ++ [.openWrite c.filepath (openUploadFile c).1] := rfl
      have hopen := Conn.openings_of_log hlog
      rw [h.first (.inr hs), ho] at hopen
      exact ⟨hopen ▸ Nat.le_refl 1, fun hs' => by rcases hs' with hs' | hs' <;> cases hs'⟩
  | @choose d st msg hch =>
    have hfill : (fillResponse d st msg).openings = d.openings :=
      Conn.openings_eq (l := [_]) rfl rfl
    have hsend := (fillResponse_sending d st msg).ne
    refine ⟨?_, fun hs' => ?_⟩
    · rw [hfill]
      rcases hch.openings with ho | ⟨hs, f, ho⟩
      · exact ho ▸ h.one
      · rw [ho, h.first (.inl hs)]
        exact Nat.le_refl 1
    · rcases hs' with hs' | hs'
      · exact absurd hs' hsend.1
      · exact absurd hs' hsend.2.1
  | send hs =>
    refine h.congr hs.openings fun hs' => ?_
    rcases hs' with hs' | hs'
    · exact absurd hs' hs.sending.ne.1
    · exact absurd hs' hs.sending.ne.2.1
  | @close k hcl =>
    refine h.congr ((closeAndCleanup_openings k).trans hcl.openings) fun hs' => ?_
    rw [closeAndCleanup_client] at hs'
    rcases hcl.state with hs | hs
    · exact hs ▸ hs'
    · rw [hs] at hs'
      rcases hs' with hs' | hs' <;> cases hs'
  | fault hl => exact h.congr (Conn.openings_eq (l := [_]) rfl rfl) fun _ => .inl hl.state

end Steps

theorem opensOk_stable : Stable OpensOk where
  new := fun _ _ _ => ⟨Nat.zero_le _, fun _ => rfl⟩
  step := fun _ _ _ h hstep => hstep.opensOk h
  close := fun c _ h => h.congr (closeAndCleanup_openings c) fun hs => by
    rwa [closeAndCleanup_client] at hs
  globals := fun _ _ _ _ h => h.congr rfl id

/-! ### Status lines -/

/-- A status line is shorter than the buffer it is stored in. -/
def ShortLine (k : Client) : Prop :=
  k.state = .sendOk ∨ k.state = .sendError → k.simpleResponseLen ≤ maxHeaderLen - 1

theorem ShortLine.congr {k k' : Client} (h : ShortLine k) (hs : k'.state = k.state)
    (hl : k'.simpleResponseLen = k.simpleResponseLen) : ShortLine k' := by
  intro hs'
  rw [hl]
  exact h (hs ▸ hs')

theorem ShortLine.of_ne {k : Client} (hok : k.state ≠ .sendOk) (herr : k.state ≠ .sendError) :
    ShortLine k := fun hs => (hs.elim hok herr).elim

theorem fillResponse_shortLine (c : Ctx) (st : Status) (msg : List Byte) :
    ShortLine (fillResponse c st msg).client := fun _ => by
  change (if (responseText st msg).length ≥ maxHeaderLen then maxHeaderLen - 1
    else (responseText st msg).length) ≤ maxHeaderLen - 1
  split_ifs
  · exact Nat.le_refl _
  · omega

theorem Step.shortLine {c c' : Ctx} (hstep : Step c c') (h : ShortLine c.client) :
    ShortLine c'.client := by
  cases hstep with
  | quiet hq => cases hq <;> exact h
  | receive hr => cases hr <;> exact h.congr rfl rfl
  | begin hb => cases hb <;> exact .of_ne (fun hs => by cases hs) (fun hs => by cases hs)
  | choose => exact fillResponse_shortLine _ _ _
  | send hs =>
    cases hs with
    | linePart => exact h.congr rfl rfl
    | loadSize hs hl =>
      rw [loadGetSize_of_zero hl]
      exact .of_ne (fun hs' => by cases hs.symm.trans hs') (fun hs' => by cases hs.symm.trans hs')
    | sizePart => exact h.congr rfl rfl
    | data => exact h.congr rfl rfl
    | listPart => exact h.congr rfl rfl
    | _ => exact .of_ne (fun hs => by cases hs) (fun hs => by cases hs)
  | @close k hcl =>
    have hk : ShortLine k.client := by
      cases hcl with
      | replied => exact .of_ne (fun hs => by cases hs) (fun hs => by cases hs)
      | got => exact .of_ne (fun hs => by cases hs) (fun hs => by cases hs)
      | listed => exact .of_ne (fun hs => by cases hs) (fun hs => by cases hs)
      | _ => exact h
    rw [closeAndCleanup_client]
    exact hk.congr rfl rfl
  | fault => exact h.congr rfl rfl

theorem shortLine_stable : Stable fun c => ShortLine c.client where
  new := fun _ _ _ => .of_ne (fun hs => by cases hs) (fun hs => by cases hs)
  step := fun _ _ _ h hstep => hstep.shortLine h
  close := fun c _ h => by
    rw [closeAndCleanup_client]
    exact h.congr rfl rfl
  globals := fun _ _ _ _ h => h

/-! ### The record -/

/-- What `client_t` satisfies between two events.  `header_buf` holds a NUL behind its
`header_len` bytes, `filename` one behind its last byte. -/
structure RecordOk (k : Client) : Prop where
  notDone : k.state ≠ .done
  header : k.headerBuf.length = k.headerLen ∧ k.headerLen ≤ maxHeaderLen - 1
  filename : 0 ∉ k.filename ∧ k.filename.length < 256
  file : k.fileFd.isSome ↔ k.HasFile
  size : k.state = .recvPutSize → k.bytesTransferred < sizeLen
  data : k.state = .recvPutData → k.bytesTransferred < k.expectedSize
  line : k.state = .sendOk ∨ k.state = .sendError →
    k.simpleResponseSent < k.simpleResponseLen ∧ k.simpleResponseLen ≤ maxHeaderLen - 1
  getSize : k.state = .sendGetSize →
    k.simpleResponseLen = 0 ∨ k.simpleResponseLen = sizeLen ∧ k.simpleResponseSent < sizeLen
  getData : k.state = .sendGetData → k.bytesTransferred ≤ k.fileSize
  list : k.listBuf.isSome ↔ k.state = .sendListData
  listSent : k.state = .sendListData → k.listSent < k.listLen

/-- A connection that no handler is working on. -/
structure AtRest (c : Ctx) : Prop where
  conn : ConnOk c
  buffers : BuffersOk c
  short : ShortLine c.client
  incomplete : c.freed = false → Incomplete c.client

theorem Incomplete.of_sending {k : Client} (hs : k.state.Sending) : Incomplete k :=
  ⟨fun h => absurd h hs.ne.2.1, fun h => absurd h hs.ne.2.2.1⟩

/-- Where a READ event is left, the size field or the body is incomplete. -/
theorem Exit.incomplete {c c' : Ctx} (h : Exit c c') (hlive : c'.freed = false) :
    Incomplete c'.client := by
  cases h with
  | answered h =>
    cases h with
    | closed h => cases hlive.symm.trans h
    | writing hs => exact .of_sending hs
    | waits hs => exact .of_sending hs
  | drained hf hs hi hlog hroom => exact hroom
  | rearmed hf hs hi hlog h0 => exact ⟨fun _ => h0 ▸ by decide, fun h => by cases hs.symm.trans h⟩
  | stalled hf hs => exact ⟨fun h => (by cases hs.symm.trans h), fun h => by cases hs.symm.trans h⟩
  | fault hf hs => exact ⟨fun h => (by cases hs.symm.trans h), fun h => by cases hs.symm.trans h⟩

theorem atRest_resting : Resting AtRest fun _ _ => True where
  new := fun fd script g =>
    have h := buffersOk_stable.new fd script g
    ⟨h.1, h.2, shortLine_stable.new fd script g,
      fun _ => ⟨fun hs => (by cases hs), fun hs => by cases hs⟩⟩
  event := fun c ev hc hf _ h => by
    have hkeep := buffersOk_stable.serveEvent hc hf ⟨h.conn, h.buffers⟩ ev
    refine ⟨hkeep.1, hkeep.2, shortLine_stable.serveEvent hc hf h.short ev, fun hlive => ?_⟩
    rcases serveEvent_exit hc hf h.conn ev with hfreed | ⟨d, hread, hwrite⟩
    · cases hlive.symm.trans hfreed
    rcases hwrite with heq | ⟨-, -, hawake⟩
    · rw [heq] at hlive ⊢
      rcases hread with rfl | ⟨-, -, -, hexit⟩
      · exact h.incomplete hc
      · exact hexit.incomplete hlive
    · cases hawake with
      | closed hfreed => cases hlive.symm.trans hfreed
      | writing hf hs => exact .of_sending hs
  globals := fun c g hg hf h =>
    have hkeep := buffersOk_stable.globals c g hg hf ⟨h.conn, h.buffers⟩
    ⟨hkeep.1, hkeep.2, h.short, h.incomplete⟩

theorem AtRest.recordOk {c : Ctx} (h : AtRest c) (hlive : c.freed = false) :
    RecordOk c.client where
  notDone := fun hs => by cases hlive.symm.trans (h.conn.done hs)
  header := ⟨h.conn.request.len.symm, h.conn.request.len ▸ h.conn.request.room⟩
  filename := by
    rw [h.conn.request.name]
    exact ⟨nameOf_no_nul _, Nat.lt_succ_of_le (length_nameOf_le _)⟩
  file := h.buffers.file hlive
  size := (h.incomplete hlive).size
  data := (h.incomplete hlive).data
  line := fun hs => by
    obtain ⟨rs, st, msg, hline⟩ := h.conn.reply.line hs
    exact ⟨hline.len ▸ hline.lt, h.short hs⟩
  getSize := fun hs => by
    rcases (h.conn.reply.size hs).2 with ⟨h0, -⟩ | ⟨h8, hlt, -⟩
    · exact .inl h0
    · exact .inr ⟨h8, hlt⟩
  getData := fun hs => (h.conn.reply.data hs).1
  list := h.buffers.list hlive
  listSent := fun hs => by
    obtain ⟨buffer, -, -, hlt, -⟩ := h.conn.reply.list hs
    exact hlt

/-- **Every connection that the event loop knows satisfies the record invariant between two
events**, and no connection leaves a file open: it opens at most one, and has none open when it
is destroyed. -/
theorem record_reachable {s : Server} (h : Reachable s) :
    (∀ e ∈ s.fdToClient.contents, ∃ i conn, e.value = some i ∧ s.conns[i]? = some conn ∧
      RecordOk conn.client) ∧
    ∀ conn ∈ s.conns, conn.openings.length ≤ 1 ∧
      (conn.freed = true → conn.client.fileFd = none ∧ conn.client.listBuf = none) := by
  have hrest := atRest_resting.reachable h
  refine ⟨fun e he => ?_, fun conn hmem => ?_⟩
  · obtain ⟨i, conn, hval, hi, hlive, -⟩ := h.mapInv.live e he
    exact ⟨i, conn, hval, hi, (hrest conn (List.mem_of_getElem? hi)).recordOk hlive⟩
  · exact ⟨(opensOk_stable.reachable h conn hmem).one, (hrest conn hmem).buffers.freed⟩

/-- A client has sent the line of an upload and half of the size field. -/
def halfSize : List Action :=
  [.accept 5 ⟨pushBack (ascii "PUT x\n") [.data 2 [0, 0, 0]], [], [], []⟩,
    .event 5 .onRead, .event 5 .onRead]

theorem record_reachable_halfSize :
    ∃ conn ∈ ((Server.boot bareDisk).run halfSize).conns[0]?,
      conn.client.state = .recvPutSize ∧ RecordOk conn.client := by
  have hstate : ∃ conn ∈ ((Server.boot bareDisk).run halfSize).conns[0]?,
      conn.client.state = .recvPutSize := by decide +kernel
  have hentry : ∃ e ∈ ((Server.boot bareDisk).run halfSize).fdToClient.contents,
      e.value = some 0 := by decide +kernel
  obtain ⟨e, he, hval⟩ := hentry
  obtain ⟨conn, hi, hs⟩ := hstate
  obtain ⟨i, conn', hval', hi', hok⟩ :=
    (record_reachable ⟨bareDisk, halfSize, bareDisk_fresh, rfl⟩).1 e he
  obtain rfl : 0 = i := Option.some.inj (hval.symm.trans hval')
  obtain rfl : conn = conn' := Option.some.inj (hi.symm.trans hi')
  exact ⟨conn, hi, hs, hok⟩

end FileServer
