/-
  Every handler is a chain of steps.

  `handleReadEvent_steps` and `handleWriteEvent_steps`: what holds of every step
  holds of the handlers.  The loops are taken apart with the loop rule
  (`Loop.exec_spec`), whose invariant is that the passes so far are a chain of
  steps; their variants decrease because a pass that goes round again consumes part
  of the script.
-/
import FileServer.Steps
import FileServer.Equiv.Ctx

namespace FileServer

open Loop Relation

/-! ### The equations of the source -/

@[simp] theorem fillResponse_freed (c : Ctx) (st : Status) (msg : List Byte) :
    (fillResponse c st msg).freed = c.freed := rfl

theorem fillResponse_state (c : Ctx) (st : Status) (msg : List Byte) :
    (fillResponse c st msg).client.state = match st with
      | .ok => .sendOk
      | .error => .sendError := rfl

/-- `execute_simple_response_write` in terms of its write. -/
theorem executeWith_eq (f : Ctx → Ctx) (c : Ctx) :
    executeWith f c = match (writeLine c).1 with
      | .eagain => (writeLine c).2
      | .err => closeAndCleanup (writeLine c).2
      | .wrote n =>
        if c.client.simpleResponseSent + n = c.client.simpleResponseLen then
          match c.client.state with
          | .sendOk =>
            match c.client.requestVerb with
            | .list => f (sentLine c n)
            | .get =>
              ((sentLine c n).setClient fun k =>
                { k with
                  simpleResponseLen := 0
                  simpleResponseSent := 0
                  state := .sendGetSize }).modifyEventLoop .write
            | _ => closeAndCleanup (setState (sentLine c n) .done)
          | .sendError => closeAndCleanup (setState (sentLine c n) .done)
          | _ => sentLine c n
        else (sentLine c n).modifyEventLoop .write := rfl

/-- In `STATE_SEND_ERROR` the list is never started. -/
theorem executeWith_of_ne {f g : Ctx → Ctx} {c : Ctx} (h : c.client.state ≠ .sendOk) :
    executeWith f c = executeWith g c := by
  rw [executeWith_eq, executeWith_eq]
  cases hs : c.client.state <;> first | rfl | exact absurd hs h

/-- `execute_simple_response_write`, as the source has it. -/
theorem executeSimpleResponseWrite_eq (c : Ctx) :
    executeSimpleResponseWrite c = executeWith startSendList c := rfl

/-- `prepare_and_send_response`, as the source has it. -/
theorem prepareAndSendResponse_eq (c : Ctx) (status : Status) (msg : List Byte) :
    prepareAndSendResponse c status msg
      = executeSimpleResponseWrite (fillResponse c status msg) := rfl

/-- `start_send_list`, as the source has it. -/
theorem startSendList_eq (c : Ctx) :
    startSendList c = match (buildListBuffer c).1 with
      | none => prepareAndSendResponse (buildListBuffer c).2 .error errBadRequest
      | some buffer =>
        ((buildListBuffer c).2.setClient fun k =>
          { k with
            listBuf := some buffer
            listLen := buffer.length
            listSent := 0
            state := .sendListData }).modifyEventLoop .write := by
  unfold startSendList
  dsimp only
  cases (buildListBuffer c).1 with
  | none => exact executeWith_of_ne (g := startSendList) (by rw [fillResponse_state]; simp)
  | some buffer => rfl

/-- Serve a request: the branches of `parse_header_and_transition`. -/
def serveRequest (c : Ctx) (q : Request) : Ctx :=
  match q with
  | .list => prepareAndSendResponse (noteRequest c q) .ok []
  | .delete _ => deleteRequest (noteRequest c q)
  | .get _ => startSendGet (noteRequest c q)
  | .put _ =>
    ((noteRequest c q).setClient fun k =>
      { k with bytesTransferred := 0, state := .recvPutSize }).modifyEventLoop .read
  | .bad _ => prepareAndSendResponse (noteRequest c q) .error errBadRequest

/-- **`parse_header_and_transition`** serves the request that the header holds. -/
theorem parseHeaderAndTransition_eq (c : Ctx) :
    parseHeaderAndTransition c = match requestOf c.client.headerBuf with
      | none => c
      | some q => serveRequest c q := by
  unfold parseHeaderAndTransition requestOf
  dsimp only
  by_cases hn : newline ∈ cString c.client.headerBuf
  · rw [if_neg (not_not_intro hn), if_pos hn]
    unfold requestOfLine
    dsimp only
    generalize beforeChar newline (cString c.client.headerBuf) = line
    by_cases hsp : space ∈ line
    · simp only [if_pos hsp]
      split_ifs <;> rfl
    · simp only [if_neg hsp]
      split_ifs <;> rfl
  · rw [if_pos hn, if_neg hn]

/-! ### Variants -/

theorem rxWeight_pushBack (bs : List Byte) (rx : List RxItem) :
    rxWeight (pushBack bs rx) = bs.length + rxWeight rx := by
  cases bs <;> simp [pushBack, rxWeight]

/-- A read that is tried again uses up an item. -/
theorem rxWeight_read_eintr {s : Script} {n : Nat} (h : (s.read n).1 = .eintr) :
    rxWeight (s.read n).2.rx < rxWeight s.rx := by
  unfold Script.read at h ⊢
  split at h <;> try cases h
  rename_i rx hrx
  simp [hrx, rxWeight]

/-- A read that finds bytes uses them up. -/
theorem rxWeight_read_bytes {s : Script} {n : Nat} {bs : List Byte}
    (h : (s.read n).1 = .bytes bs) (hne : bs ≠ []) :
    rxWeight (s.read n).2.rx < rxWeight s.rx := by
  unfold Script.read at h ⊢
  split at h <;> try cases h
  rename_i b rest rx hrx
  have hn : n ≠ 0 := by
    rintro rfl
    exact hne rfl
  simp only [hrx, rxWeight_pushBack, rxWeight, List.length_drop, List.length_cons]
  omega

theorem length_tx_write {s : Script} {k n : Nat} (h : (s.write k).1 = .wrote n) :
    (s.write k).2.tx.length < s.tx.length := by
  unfold Script.write at h ⊢
  split at h <;> try cases h
  rename_i rx hrx
  simp [hrx]

/-- A read finds at most what it asks for. -/
theorem length_read_le {s : Script} {n : Nat} {bs : List Byte} (h : (s.read n).1 = .bytes bs) :
    bs.length ≤ n := by
  unfold Script.read at h
  split at h <;> try cases h
  simp only [List.length_take]
  omega

/-! ### Replies -/

theorem Steps.single {c c' : Ctx} (hc : c.freed = false) (h : Step c c') : Steps c c' :=
  ReflTransGen.single ⟨hc, h⟩

/-- A step that is followed by others. -/
theorem Steps.after {c c' c'' : Ctx} (h : Steps c c') (hc : c'.freed = false) (h' : Step c' c'') :
    Steps c c'' := ReflTransGen.tail h ⟨hc, h'⟩

@[simp] theorem setState_freed (c : Ctx) (st : ConnState) : (setState c st).freed = c.freed := rfl

@[simp] theorem takeLine_freed (c : Ctx) (q : Request) : (takeLine c q).freed = c.freed := rfl

@[simp] theorem removeFileFromList_freed (c : Ctx) (name : Path) :
    (removeFileFromList c name).freed = c.freed := by
  unfold removeFileFromList
  dsimp only
  split <;> rfl

@[simp] theorem addFileToList_freed (c : Ctx) (name : Path) :
    (addFileToList c name).freed = c.freed := by
  unfold addFileToList
  dsimp only
  split
  · rfl
  · rfl
  · dsimp only
    split_ifs <;> rfl

@[simp] theorem buildListBuffer_freed (c : Ctx) : (buildListBuffer c).2.freed = c.freed := by
  unfold buildListBuffer
  dsimp only
  split <;> rfl

theorem Choose.freed {c c' : Ctx} {st : Status} {msg : List Byte} (h : Choose c c' st msg) :
    c'.freed = c.freed := by
  cases h with
  | deleted hl hf hu => exact removeFileFromList_freed _ _
  | accepted hs hlen hr => exact addFileToList_freed _ _
  | listNoMemory hs hv hn hb => exact buildListBuffer_freed _
  | _ => rfl

/-- A short response in `STATE_SEND_ERROR`. -/
theorem executeWith_error_steps {f : Ctx → Ctx} {c : Ctx} (hc : c.freed = false)
    (hs : c.client.state = .sendError) : Steps c (executeWith f c) := by
  rw [executeWith_eq]
  cases hw : (writeLine c).1 with
  | eagain => exact .single hc (.quiet (.write hw (.inr (.inl hs))))
  | err => exact .single hc (.close (.line (.inr hs) hw))
  | wrote n =>
    dsimp only
    split_ifs with hall
    · rw [hs]
      exact .single hc (.close (.replied (.inl hs) ⟨hw, hall⟩))
    · exact .single hc (.send (.linePart (.inr hs) hw hall))

theorem Choose.steps_error {c c' : Ctx} {msg : List Byte} (hc : c.freed = false)
    (h : Choose c c' .error msg) {f : Ctx → Ctx} :
    Steps c (executeWith f (fillResponse c' .error msg)) :=
  (Steps.single hc (.choose h)).trans
    (executeWith_error_steps (by rw [fillResponse_freed, h.freed, hc]) rfl)

/-- **`execute_simple_response_write`** is a chain of steps. -/
theorem executeSimpleResponseWrite_steps {c : Ctx} (hc : c.freed = false)
    (hs : c.client.state = .sendOk ∨ c.client.state = .sendError) :
    Steps c (executeSimpleResponseWrite c) := by
  rcases hs with hs | hs
  swap
  · exact executeWith_error_steps hc hs
  rw [executeSimpleResponseWrite_eq, executeWith_eq]
  cases hw : (writeLine c).1 with
  | eagain => exact .single hc (.quiet (.write hw (.inl hs)))
  | err => exact .single hc (.close (.line (.inl hs) hw))
  | wrote n =>
    dsimp only
    split_ifs with hall
    · have hn : LineSent c n := ⟨hw, hall⟩
      rw [hs]
      cases hv : c.client.requestVerb with
      | list =>
        dsimp only
        unfold startSendList
        dsimp only
        cases hb : (buildListBuffer (sentLine c n)).1 with
        | none => exact Choose.steps_error hc (.listNoMemory hs hv hn hb)
        | some buffer => exact .single hc (.send (.lineList hs hv hn hb))
      | get => exact .single hc (.send (.lineGet hs hv hn))
      | _ =>
        exact .single hc (.close (.replied (.inr ⟨hs, by simp [hv], by simp [hv]⟩) hn))
    · exact .single hc (.send (.linePart (.inl hs) hw hall))

/-- **`prepare_and_send_response`** is a chain of steps from where it was chosen. -/
theorem Choose.steps {c c' : Ctx} {st : Status} {msg : List Byte} (hc : c.freed = false)
    (h : Choose c c' st msg) : Steps c (prepareAndSendResponse c' st msg) := by
  refine (Steps.single hc (.choose h)).trans (executeSimpleResponseWrite_steps ?_ ?_)
  · rw [fillResponse_freed, h.freed, hc]
  · cases st with
    | ok => exact .inl rfl
    | error => exact .inr rfl

/-! ### Requests -/

/-- Serving a request is a chain of steps from the read of its newline. -/
theorem serveRequest_steps {c : Ctx} {q : Request} (hc : c.freed = false) (hl : LineRead c q) :
    Steps c (serveRequest (storeHeader c newline) q) := by
  cases q with
  | list => exact Choose.steps hc (.list hl)
  | bad v => exact Choose.steps hc (.bad hl)
  | put w => exact .single hc (.begin (.put hl))
  | delete w =>
    let d := noteRequest (storeHeader c newline) (.delete w)
    have hd : d.use (.find (w.take 255)) = takeLine c (.delete w) := rfl
    change Steps c (deleteRequest d)
    unfold deleteRequest
    dsimp only
    rw [show d.client.filename = w.take 255 from rfl, hd]
    split
    · rename_i hf
      exact .single hc (.fault hl hf)
    · rename_i hf
      exact Choose.steps hc (.deleteAbsent hl hf)
    · rename_i i hf
      split_ifs with hu
      · exact Choose.steps hc (.deleted hl hf hu)
      · exact Choose.steps hc (.deleteFailed hl hf (by simpa using hu))
  | get w =>
    change Steps c (startSendGet (takeLine c (.get w)))
    unfold startSendGet
    dsimp only
    split
    · rename_i ho
      exact Choose.steps hc (.getMissing hl ho)
    · rename_i h ho
      split
      · rename_i hf
        exact Choose.steps hc (.getFailed hl ho hf)
      · rename_i size hf
        exact Choose.steps hc (.getOpened hl ho hf)

/-! ### The request line -/

theorem readHeaderPass_decreases :
    Decreases readHeaderPass fun c => rxWeight c.script.rx := by
  intro c c' h
  unfold readHeaderPass at h
  dsimp only at h
  split_ifs at h
  split at h
  · rename_i hr
    obtain rfl := Pass.again.inj h
    exact rxWeight_read_eintr hr
  · cases h
  · cases h
  · cases h
  · cases h
  · rename_i b bs hr
    split_ifs at h
    obtain rfl := Pass.again.inj h
    exact rxWeight_read_bytes hr (by simp)

/-- A pass of the header loop is a chain of steps, and leaves a live connection when the loop goes
on. -/
theorem readHeaderPass_steps {c : Ctx} (hc : c.freed = false) (hf : c.fault = false)
    (hs : c.client.state = .recvHeader) :
    match readHeaderPass c with
    | .again c' => Steps c c' ∧ c'.freed = false ∧ c'.fault = false ∧ c'.client.state = .recvHeader
    | .leave c' => Steps c c' ∧ c'.freed = false ∧ c'.client.state = .recvHeader
    | .ret c' => Steps c c' := by
  unfold readHeaderPass
  dsimp only
  split_ifs with hlen
  · cases hr : (c.sysRead 1).1 with
    | eintr => exact ⟨.single hc (.quiet (.read (.header hs hlen) (.inr hr))), hc, hf, hs⟩
    | eagain => exact ⟨.single hc (.quiet (.read (.header hs hlen) (.inl hr))), hc, hs⟩
    | err => exact .single hc (.close (.header hs hlen (.inl hr)))
    | eof => exact .single hc (.close (.header hs hlen (.inr (.inl hr))))
    | bytes bs =>
      cases bs with
      | nil => exact .single hc (.close (.header hs hlen (.inr (.inr hr))))
      | cons b bs =>
        dsimp only
        split_ifs with hb
        · subst hb
          change Steps c (parseHeaderAndTransition (storeHeader c newline))
          rw [parseHeaderAndTransition_eq]
          have hbuf : (storeHeader c newline).client.headerBuf
              = c.client.headerBuf ++ [newline] := rfl
          rw [hbuf]
          cases hq : requestOf (c.client.headerBuf ++ [newline]) with
          | none => exact .single hc (.receive (.header hf hs hlen hr (.inr hq)))
          | some q => exact serveRequest_steps hc ⟨hf, hs, hlen, ⟨bs, hr⟩, hq⟩
        · exact ⟨.single hc (.receive (.header hf hs hlen hr (.inl hb))), hc, hf, hs⟩
  · exact ⟨.refl, hc, hs⟩

theorem readHeader_steps {c : Ctx} (hc : c.freed = false) (hf : c.fault = false)
    (hs : c.client.state = .recvHeader) : Steps c (readHeader c) := by
  obtain ⟨t, ⟨hct, htc, htf, hts⟩, heq, hfin⟩ := exec_spec readHeaderPass_decreases
    (I := fun t => Steps c t ∧ t.freed = false ∧ t.fault = false ∧ t.client.state = .recvHeader)
    (fun t t' ⟨hct, htc, htf, hts⟩ hpass => by
      have := readHeaderPass_steps htc htf hts
      rw [hpass] at this
      exact ⟨hct.trans this.1, this.2⟩)
    (s := c) ⟨.refl, hc, hf, hs⟩
  have hpass := readHeaderPass_steps htc htf hts
  unfold readHeader
  rw [heq]
  cases hp : readHeaderPass t with
  | again c' => rw [hp] at hfin; exact hfin.elim
  | ret c' => rw [hp] at hpass; exact hct.trans hpass
  | leave c' =>
    rw [hp] at hpass
    obtain ⟨htc', hc', hs'⟩ := hpass
    dsimp only
    split_ifs with hlen
    · exact (hct.trans htc').trans (Choose.steps hc' (.tooLong hs' hlen))
    · exact hct.trans htc'

/-! ### Uploads -/

theorem recvPutDataPass_decreases :
    Decreases recvPutDataPass fun c => rxWeight c.script.rx := by
  intro c c' h
  unfold recvPutDataPass at h
  dsimp only at h
  split_ifs at h
  split at h
  · rename_i hr
    obtain rfl := Pass.again.inj h
    exact rxWeight_read_eintr hr
  · cases h
  · cases h
  · cases h
  · cases h
  · rename_i bs hne hr
    split at h
    · cases h
    · split_ifs at h
      obtain rfl := Pass.again.inj h
      simpa using rxWeight_read_bytes hr (fun h => hne h)

theorem recvPutDataPass_steps {c : Ctx} (hc : c.freed = false)
    (hs : c.client.state = .recvPutData) :
    match recvPutDataPass c with
    | .again c' => Steps c c' ∧ c'.freed = false ∧ c'.client.state = .recvPutData
    | .leave c' => Steps c c' ∧ c'.freed = false ∧ c'.client.state = .recvPutData
    | .ret c' => Steps c c' := by
  unfold recvPutDataPass
  dsimp only
  split_ifs with hlen
  · cases hr : (c.sysRead (bodyRoom c.client)).1 with
    | eintr =>
      rw [bodyRoom] at hr
      rw [hr]
      exact ⟨.single hc (.quiet (.read (.body hs hlen) (.inr hr))), hc, hs⟩
    | eagain =>
      rw [bodyRoom] at hr
      rw [hr]
      exact ⟨.single hc (.quiet (.read (.body hs hlen) (.inl hr))), hc, hs⟩
    | err =>
      have hend : (c.sysRead (bodyRoom c.client)).1.Ended := .inl hr
      rw [bodyRoom] at hr
      rw [hr]
      exact Choose.steps hc (.bodyCut hs hlen hend)
    | eof =>
      have hend : (c.sysRead (bodyRoom c.client)).1.Ended := .inr (.inl hr)
      rw [bodyRoom] at hr
      rw [hr]
      exact Choose.steps hc (.bodyCut hs hlen hend)
    | bytes bs =>
      have hr' := hr
      rw [bodyRoom] at hr'
      rw [hr']
      cases bs with
      | nil => exact Choose.steps hc (.bodyCut hs hlen (.inr (.inr hr)))
      | cons b bs =>
        cases hh : c.client.fileFd with
        | none =>
          simp only [Ctx.sysRead_client, hh]
          exact Choose.steps hc (.noFile hs hlen hr hh)
        | some h =>
          simp only [Ctx.sysRead_client, hh]
          change match (if (writeBody c h (b :: bs)).1 = some (b :: bs).length then
            Pass.again ((writeBody c h (b :: bs)).2.setClient fun k =>
              { k with bytesTransferred := k.bytesTransferred + (b :: bs).length })
            else .ret (abortUpload (writeBody c h (b :: bs)).2)) with
            | .again c' => Steps c c' ∧ c'.freed = false ∧ c'.client.state = .recvPutData
            | .leave c' => Steps c c' ∧ c'.freed = false ∧ c'.client.state = .recvPutData
            | .ret c' => Steps c c'
          split_ifs with hw
          · exact ⟨.single hc (.receive (.body hs hlen hr (by simp) hh hw)), hc, hs⟩
          · exact Choose.steps hc (.bodyFailed hs hlen hr (by simp) hh hw)
  · exact ⟨.refl, hc, hs⟩

theorem finishUpload_steps {c : Ctx} (hc : c.freed = false) (hs : c.client.state = .recvPutData) :
    Steps c (finishUpload c) := by
  unfold finishUpload
  split_ifs with hlen
  · dsimp only
    split
    · rename_i b bs hr
      exact Choose.steps hc (.extraByte hs hlen hr)
    · rename_i hr
      exact Choose.steps hc (.accepted hs hlen hr)
  · exact .refl

theorem recvPutData_steps {c : Ctx} (hc : c.freed = false) (hs : c.client.state = .recvPutData) :
    Steps c (recvPutData c) := by
  obtain ⟨t, ⟨hct, htc, hts⟩, heq, hfin⟩ := exec_spec recvPutDataPass_decreases
    (I := fun t => Steps c t ∧ t.freed = false ∧ t.client.state = .recvPutData)
    (fun t t' ⟨hct, htc, hts⟩ hpass => by
      have := recvPutDataPass_steps htc hts
      rw [hpass] at this
      exact ⟨hct.trans this.1, this.2⟩)
    (s := c) ⟨.refl, hc, hs⟩
  have hpass := recvPutDataPass_steps htc hts
  unfold recvPutData
  rw [heq]
  cases hp : recvPutDataPass t with
  | again c' => rw [hp] at hfin; exact hfin.elim
  | ret c' => rw [hp] at hpass; exact hct.trans hpass
  | leave c' =>
    rw [hp] at hpass
    exact (hct.trans hpass.1).trans (finishUpload_steps hpass.2.1 hpass.2.2)

theorem recvPutSizePass_decreases :
    Decreases recvPutSizePass fun c => rxWeight c.script.rx := by
  intro c c' h
  unfold recvPutSizePass at h
  dsimp only at h
  split_ifs at h
  split at h
  · rename_i hr
    obtain rfl := Pass.again.inj h
    exact rxWeight_read_eintr hr
  · cases h
  · cases h
  · cases h
  · cases h
  · rename_i bs hne hr
    obtain rfl := Pass.again.inj h
    exact rxWeight_read_bytes hr (fun h => hne h)

theorem recvPutSizePass_steps {c : Ctx} (hc : c.freed = false)
    (hs : c.client.state = .recvPutSize) :
    match recvPutSizePass c with
    | .again c' => Steps c c' ∧ c'.freed = false ∧ c'.client.state = .recvPutSize
    | .leave c' => c' = c ∧ ¬ c.client.bytesTransferred < sizeLen
    | .ret c' => Steps c c' := by
  unfold recvPutSizePass
  dsimp only
  split_ifs with hlen
  · cases hr : (c.sysRead (sizeLen - c.client.bytesTransferred)).1 with
    | eintr => exact ⟨.single hc (.quiet (.read (.size hs hlen) (.inr hr))), hc, hs⟩
    | eagain => exact .single hc (.quiet (.read (.size hs hlen) (.inl hr)))
    | err => exact Choose.steps hc (.sizeCut hs hlen (.inl hr))
    | eof => exact Choose.steps hc (.sizeCut hs hlen (.inr (.inl hr)))
    | bytes bs =>
      cases bs with
      | nil => exact Choose.steps hc (.sizeCut hs hlen (.inr (.inr hr)))
      | cons b bs => exact ⟨.single hc (.receive (.size hs hlen hr (by simp))), hc, hs⟩
  · exact ⟨rfl, hlen⟩

theorem openUpload_steps {c : Ctx} (hc : c.freed = false) (hs : c.client.state = .recvPutSize)
    (hlen : ¬ c.client.bytesTransferred < sizeLen) : Steps c (openUpload c) := by
  unfold openUpload
  dsimp only
  split
  · rename_i ho
    exact Choose.steps hc (.openFailed hs hlen ho)
  · rename_i h ho
    exact (Steps.single hc (.begin (.upload hs hlen ho))).trans (recvPutData_steps hc rfl)

theorem recvPutSize_steps {c : Ctx} (hc : c.freed = false) (hs : c.client.state = .recvPutSize) :
    Steps c (recvPutSize c) := by
  obtain ⟨t, ⟨hct, htc, hts⟩, heq, hfin⟩ := exec_spec recvPutSizePass_decreases
    (I := fun t => Steps c t ∧ t.freed = false ∧ t.client.state = .recvPutSize)
    (fun t t' ⟨hct, htc, hts⟩ hpass => by
      have := recvPutSizePass_steps htc hts
      rw [hpass] at this
      exact ⟨hct.trans this.1, this.2⟩)
    (s := c) ⟨.refl, hc, hs⟩
  have hpass := recvPutSizePass_steps htc hts
  unfold recvPutSize
  rw [heq]
  cases hp : recvPutSizePass t with
  | again c' => rw [hp] at hfin; exact hfin.elim
  | ret c' => rw [hp] at hpass; exact hct.trans hpass
  | leave c' =>
    rw [hp] at hpass
    obtain ⟨rfl, hlen⟩ := hpass
    exact hct.trans (openUpload_steps htc hts hlen)

/-! ### Downloads and lists -/

theorem sendGetSize_steps {c : Ctx} (hc : c.freed = false) (hs : c.client.state = .sendGetSize) :
    Steps c (sendGetSize c) := by
  -- loading the buffer is a step of its own, where it happens
  have hload : Steps c (loadGetSize c) ∧ (loadGetSize c).freed = false ∧
      (loadGetSize c).client.state = .sendGetSize ∧
      (loadGetSize c).client.simpleResponseLen ≠ 0 := by
    by_cases hl : c.client.simpleResponseLen = 0
    · refine ⟨.single hc (.send (.loadSize hs hl)), ?_⟩
      rw [loadGetSize, if_pos hl]
      exact ⟨hc, hs, by simp [sizeLen]⟩
    · rw [loadGetSize, if_neg hl]
      exact ⟨.refl, hc, hs, hl⟩
  obtain ⟨hsteps, hc', hs', hl⟩ := hload
  unfold sendGetSize
  dsimp only
  generalize loadGetSize c = d at hsteps hc' hs' hl
  refine hsteps.trans ?_
  change Steps d (match (writeLine d).1 with
    | .eagain => (writeLine d).2
    | .err => closeAndCleanup (writeLine d).2
    | .wrote n => if (sentLine d n).client.simpleResponseSent = d.client.simpleResponseLen then _
      else sentLine d n)
  cases hw : (writeLine d).1 with
  | eagain => exact .single hc' (.quiet (.write hw (.inr (.inr (.inl hs')))))
  | err => exact .single hc' (.close (.size hs' hl hw))
  | wrote n =>
    dsimp only
    split_ifs with hall
    · exact .single hc' (.send (.sizeAll hs' hl ⟨hw, hall⟩))
    · exact .single hc' (.send (.sizePart hs' hl hw hall))

theorem sendGetDataPass_decreases :
    Decreases sendGetDataPass fun c => c.script.tx.length := by
  intro c c' h
  unfold sendGetDataPass at h
  dsimp only at h
  split_ifs at h
  cases hh : c.client.fileFd with
  | none => simp [hh] at h
  | some f =>
    simp only [hh] at h
    split at h
    · cases h
    · cases h
    · split at h
      · cases h
      · cases h
      · rename_i n hw
        split_ifs at h
        obtain rfl := Pass.again.inj h
        simpa using length_tx_write hw

theorem sendGetDataPass_steps {c : Ctx} (hc : c.freed = false)
    (hs : c.client.state = .sendGetData) :
    match sendGetDataPass c with
    | .again c' => Steps c c' ∧ c'.freed = false ∧ c'.client.state = .sendGetData
    | .leave c' => c' = c
    | .ret c' => Steps c c' := by
  unfold sendGetDataPass
  dsimp only
  split_ifs with hlen
  · cases hh : c.client.fileFd with
    | none => exact .single hc (.close (.noFile hs hlen hh))
    | some h =>
      dsimp only
      cases hp : (readData c h).1 with
      | none =>
        simp only [readData, dataRoom] at hp
        rw [hp]
        exact .single hc (.close (.pread hs hlen hh (.inl hp)))
      | some bs =>
        have hp' := hp
        simp only [readData, dataRoom] at hp'
        rw [hp']
        cases bs with
        | nil => exact .single hc (.close (.pread hs hlen hh (.inr hp)))
        | cons b bs =>
          dsimp only
          cases hw : ((readData c h).2.sysWrite (b :: bs)).1 with
          | eagain =>
            have hw' := hw
            simp only [readData, dataRoom] at hw'
            rw [hw']
            exact (Steps.single hc (.quiet (.pread h _ _))).after hc
              (.quiet (.write hw (.inr (.inr (.inr (.inl hs))))))
          | err =>
            have hw' := hw
            simp only [readData, dataRoom] at hw'
            rw [hw']
            exact .single hc (.close (.data hs hlen hh hp (by simp) hw))
          | wrote n =>
            have hw' := hw
            simp only [readData, dataRoom] at hw'
            rw [hw']
            dsimp only
            split_ifs
            · exact .single hc (.send (.data hs hlen hh hp (by simp) hw))
            · exact ⟨.single hc (.send (.data hs hlen hh hp (by simp) hw)), hc, hs⟩
  · rfl

theorem sendGetData_steps {c : Ctx} (hc : c.freed = false) (hs : c.client.state = .sendGetData) :
    Steps c (sendGetData c) := by
  obtain ⟨t, ⟨hct, htc, hts⟩, heq, hfin⟩ := exec_spec sendGetDataPass_decreases
    (I := fun t => Steps c t ∧ t.freed = false ∧ t.client.state = .sendGetData)
    (fun t t' ⟨hct, htc, hts⟩ hpass => by
      have := sendGetDataPass_steps htc hts
      rw [hpass] at this
      exact ⟨hct.trans this.1, this.2⟩)
    (s := c) ⟨.refl, hc, hs⟩
  have hpass := sendGetDataPass_steps htc hts
  unfold sendGetData
  rw [heq]
  cases hp : sendGetDataPass t with
  | again c' => rw [hp] at hfin; exact hfin.elim
  | ret c' => rw [hp] at hpass; exact hct.trans hpass
  | leave c' =>
    rw [hp] at hpass
    obtain rfl := hpass
    dsimp only
    unfold finishGet
    split_ifs with hall
    · exact hct.after htc (.close (.got hts hall))
    · exact hct

theorem sendListData_steps {c : Ctx} (hc : c.freed = false)
    (hs : c.client.state = .sendListData) : Steps c (sendListData c) := by
  unfold sendListData
  dsimp only
  change Steps c (match (writeList c).1 with
    | .eagain => (writeList c).2
    | .err => closeAndCleanup (writeList c).2
    | .wrote n => if (sentList c n).client.listSent = c.client.listLen then
        closeAndCleanup (setState (sentList c n) .done)
      else sentList c n)
  cases hw : (writeList c).1 with
  | eagain => exact .single hc (.quiet (.write hw (.inr (.inr (.inr (.inr hs))))))
  | err => exact .single hc (.close (.list hs hw))
  | wrote n =>
    dsimp only
    split_ifs with hall
    · exact .single hc (.close (.listed hs hw hall))
    · exact .single hc (.send (.listPart hs hw hall))

/-! ### Events -/

/-- **`handle_read_event`** is a chain of steps. -/
theorem handleReadEvent_steps {c : Ctx} (hc : c.freed = false) (hf : c.fault = false) :
    Steps c (handleReadEvent c) := by
  unfold handleReadEvent
  cases hs : c.client.state with
  | recvHeader => exact readHeader_steps hc hf hs
  | recvPutSize => exact recvPutSize_steps hc hs
  | recvPutData => exact recvPutData_steps hc hs
  | _ => exact .refl

/-- **`handle_write_event`** is a chain of steps. -/
theorem handleWriteEvent_steps {c : Ctx} (hc : c.freed = false) :
    Steps c (handleWriteEvent c) := by
  unfold handleWriteEvent
  cases hs : c.client.state with
  | sendOk => exact executeSimpleResponseWrite_steps hc (.inl hs)
  | sendError => exact executeSimpleResponseWrite_steps hc (.inr hs)
  | sendListData => exact sendListData_steps hc hs
  | sendGetSize => exact sendGetSize_steps hc hs
  | sendGetData => exact sendGetData_steps hc hs
  | _ => exact .refl

end FileServer
