/-
  Where a handler leaves a connection.

  A handler returns when its connection is closed, when a reply was chosen and the
  socket takes no more of it, or when a reading loop found nothing.  `Exit` lists the
  ways out of `handle_read_event` with what the log, the registration and the
  counters then are; `Awake` says the same of the write handlers.
-/
import FileServer.Equiv.Allocation

namespace FileServer

open Loop

/-! ### Writes -/

/-- The next write to the socket does not find `EAGAIN`. -/
def writable : List TxItem → Bool
  | [] => false
  | .eagain :: _ => false
  | _ => true

theorem sysWrite_eagain {c : Ctx} {bs : List Byte} (h : (c.sysWrite bs).1 = .eagain) :
    writable c.script.tx = false := by
  rw [Ctx.sysWrite_fst, Script.write] at h
  cases htx : c.script.tx with
  | nil => rfl
  | cons x tx =>
    cases x with
    | eagain => rfl
    | room n => simp [htx] at h
    | err => simp [htx] at h

theorem sysWrite_tx (c : Ctx) (bs : List Byte) :
    (c.sysWrite bs).2.script.tx = c.script.tx.tail := by
  rw [Ctx.sysWrite_script, Script.write]
  cases htx : c.script.tx with
  | nil => simp [htx]
  | cons x tx => cases x <;> rfl

theorem buildListBuffer_tx (c : Ctx) : (buildListBuffer c).2.script.tx = c.script.tx := by
  unfold buildListBuffer Ctx.use
  dsimp only
  split
  · rfl
  · exact Script.alloc_tx _

/-- The ways out of `execute_simple_response_write`. -/
inductive LineExit (t t' : Ctx) : Prop
  | closed (h : t'.freed = true)
  | writing (hs : t'.client.state.Sending) (hi : t'.interest = some .write)
  /-- The socket took nothing of the line, or of the ERROR behind the OK line of a LIST. -/
  | waits (hs : t'.client.state.Sending) (hi : t'.interest = t.interest)

theorem executeWith_error_exit (f : Ctx → Ctx) {t : Ctx} (hs : t.client.state = .sendError) :
    (executeWith f t).freed = true ∨
      (executeWith f t).client.state.Sending ∧ (executeWith f t).interest = some .write ∨
      executeWith f t = (writeLine t).2 ∧ writable t.script.tx = false := by
  rw [executeWith_eq]
  cases hw : (writeLine t).1 with
  | eagain => exact .inr (.inr ⟨rfl, sysWrite_eagain hw⟩)
  | err => exact .inl rfl
  | wrote n =>
    dsimp only
    split_ifs
    · rw [hs]
      exact .inl rfl
    · exact .inr (.inl ⟨.inr (.inl hs), rfl⟩)

theorem executeSimpleResponseWrite_exit {t : Ctx}
    (hs : t.client.state = .sendOk ∨ t.client.state = .sendError) :
    LineExit t (executeSimpleResponseWrite t) := by
  rcases hs with hs | hs
  swap
  · rcases executeWith_error_exit startSendList hs with h | ⟨h, hi⟩ | ⟨h, hw⟩
    · exact .closed h
    · exact .writing h hi
    · rw [executeSimpleResponseWrite_eq, h]
      exact .waits (.inr (.inl hs)) rfl
  rw [executeSimpleResponseWrite_eq, executeWith_eq]
  cases hw : (writeLine t).1 with
  | eagain => exact .waits (.inl hs) rfl
  | err => exact .closed rfl
  | wrote n =>
    dsimp only
    split_ifs with hall
    · rw [hs]
      cases hv : t.client.requestVerb with
      | list =>
        dsimp only
        unfold startSendList
        dsimp only
        cases hb : (buildListBuffer (sentLine t n)).1 with
        | some buffer => exact .writing (.inr (.inr (.inr (.inr rfl)))) rfl
        | none =>
          rcases executeWith_error_exit id
            (t := fillResponse (buildListBuffer (sentLine t n)).2 .error errBadRequest) rfl
            with h | ⟨h, hi⟩ | ⟨h, hw⟩
          · exact .closed h
          · exact .writing h hi
          · exact .waits (h ▸ fillResponse_sending _ .error errBadRequest)
              (h ▸ buildListBuffer_interest (sentLine t n))
      | get => exact .writing (.inr (.inr (.inl rfl))) rfl
      | _ => exact .closed rfl
    · exact .writing (.inl hs) rfl

/-! ### Replies -/

/-- Between the start of an event in `c` and the choice of a reply. -/
structure Ahead (c t : Ctx) : Prop where
  freed : t.freed = false
  tx : t.script.tx = c.script.tx
  replies : t.replies = c.replies
  interest : t.interest = c.interest
  log : c.log <+: t.log

/-- A reply was chosen in the event that started in `c`. -/
inductive Answered (c c' : Ctx) : Prop
  | closed (h : c'.freed = true)
  | writing (hs : c'.client.state.Sending) (hi : c'.interest = some .write)
  /-- A first write found `EAGAIN`. -/
  | waits (hs : c'.client.state.Sending) (hi : c'.interest = c.interest)

theorem replies_writeLine (t : Ctx) : (writeLine t).2.replies = t.replies :=
  replies_of_write (Ctx.sysWrite_log t _)

/-- **The ways out of `prepare_and_send_response`.** -/
theorem Ahead.prepareAndSendResponse {c t : Ctx} (h : Ahead c t) (st : Status)
    (msg : List Byte) : Answered c (prepareAndSendResponse t st msg) := by
  have hstate : (fillResponse t st msg).client.state = .sendOk ∨
      (fillResponse t st msg).client.state = .sendError := by
    cases st
    · exact .inl rfl
    · exact .inr rfl
  rw [prepareAndSendResponse_eq]
  cases executeSimpleResponseWrite_exit hstate with
  | closed hf => exact .closed hf
  | writing hs hi => exact .writing hs hi
  | waits hs hi => exact .waits hs (hi.trans h.interest)

namespace Ahead

variable {c t t' : Ctx}

theorem refl (hc : c.freed = false) : Ahead c c := ⟨hc, rfl, rfl, rfl, List.prefix_rfl⟩

/-- Reads, file operations and assignments stay ahead of the reply. -/
theorem tail (h : Ahead c t) {l : List Call} (hlog : t'.log = t.log ++ l)
    (hreplies : l.filterMap Call.reply? = []) (hf : t'.freed = t.freed)
    (htx : t'.script.tx = t.script.tx) (hi : t'.interest = t.interest) : Ahead c t' where
  freed := hf.trans h.freed
  tx := htx.trans h.tx
  replies := by rw [Conn.replies_of_log hlog, hreplies, List.append_nil, h.replies]
  interest := hi.trans h.interest
  log := by rw [hlog]; exact h.log.trans (List.prefix_append _ _)

theorem sysRead (h : Ahead c t) (n : Nat) : Ahead c (t.sysRead n).2 :=
  h.tail (Ctx.sysRead_log t n) rfl rfl (Script.read_tx ..) rfl

theorem setClient (h : Ahead c t) (f : Client → Client) : Ahead c (t.setClient f) :=
  ⟨h.freed, h.tx, h.replies, h.interest, h.log⟩

theorem noteRequest (h : Ahead c t) (q : Request) : Ahead c (noteRequest t q) := h.setClient _

theorem closeFile (h : Ahead c t) : Ahead c t.closeFile := h.setClient _

theorem storeHeader (h : Ahead c t) (b : Byte) : Ahead c (storeHeader t b) :=
  (h.sysRead 1).setClient _

end Ahead

/-! ### The ways out of `handle_read_event` -/

/-- The connection waits for input. -/
def ConnState.Receiving (s : ConnState) : Prop :=
  s = .recvHeader ∨ s = .recvPutSize ∨ s = .recvPutData

/-- A part of the size field or of the body is missing. -/
structure Incomplete (k : Client) : Prop where
  size : k.state = .recvPutSize → k.bytesTransferred < sizeLen
  data : k.state = .recvPutData → k.bytesTransferred < k.expectedSize

/-- The calls of an event that started with the log `l₀` end with `x`. -/
def EndsWith (l₀ : List Call) (x : Call) (l : List Call) : Prop :=
  ∃ l₁, l₀ <+: l₁ ∧ l = l₁ ++ [x]

/-- The ways out of `handle_read_event`, for a connection that was receiving in `c`. -/
inductive Exit (c c' : Ctx) : Prop
  | answered (h : Answered c c')
  /-- A read found nothing yet. -/
  | drained (hf : c'.freed = false) (hs : c'.client.state.Receiving)
      (hi : c'.interest = c.interest) (hlog : EndsWith c.log (.read .eagain) c'.log)
      (hroom : Incomplete c'.client)
  /-- A PUT line was parsed. -/
  | rearmed (hf : c'.freed = false) (hs : c'.client.state = .recvPutSize)
      (hi : c'.interest = some .read) (hlog : EndsWith c.log (.modify .read) c'.log)
      (h0 : c'.client.bytesTransferred = 0)
  /-- A newline was read behind a NUL, where the parser does not find it. -/
  | stalled (hf : c'.freed = false) (hs : c'.client.state = .recvHeader)
      (hi : c'.interest = c.interest)
      (hlog : EndsWith c.log (.read (.bytes [newline])) c'.log)
      (hbuf : ∃ h, c'.client.headerBuf = h ++ [newline])
      (hq : requestOf c'.client.headerBuf = none)
  /-- `delete_request` came to a `NULL` element. -/
  | fault (hf : c'.freed = false) (hs : c'.client.state = .recvHeader)
      (hi : c'.interest = c.interest) (hfault : c'.fault = true)

theorem ConnState.Receiving.not_sending {s : ConnState} (h : s.Receiving) : ¬ s.Sending := by
  intro hs
  obtain ⟨h1, h2, h3, -⟩ := hs.ne
  rcases h with h | h | h
  · exact h1 h
  · exact h2 h
  · exact h3 h

theorem Answered.sending {c c' : Ctx} (h : Answered c c') (hlive : c'.freed = false) :
    c'.client.state.Sending := by
  cases h with
  | closed h => cases hlive.symm.trans h
  | writing hs => exact hs
  | waits hs => exact hs

/-- The ways out of `parse_header_and_transition` once it has found a request. -/
inductive Served (c c' : Ctx) : Prop
  | answered (h : Answered c c')
  | rearmed (hf : c'.freed = false) (hs : c'.client.state = .recvPutSize)
      (hi : c'.interest = some .read) (hlog : EndsWith c.log (.modify .read) c'.log)
      (h0 : c'.client.bytesTransferred = 0)
  | fault (hf : c'.freed = false) (hs : c'.client.state = .recvHeader)
      (hi : c'.interest = c.interest) (hfault : c'.fault = true)

theorem Served.exit {c c' : Ctx} (h : Served c c') : Exit c c' := by
  cases h with
  | answered h => exact .answered h
  | rearmed hf hs hi hlog h0 => exact .rearmed hf hs hi hlog h0
  | fault hf hs hi hfault => exact .fault hf hs hi hfault

section Requests

variable {c t : Ctx}

theorem Ahead.use (h : Ahead c t) (op : ListOp) : Ahead c (t.use op) :=
  h.tail (l := []) (List.append_nil _).symm rfl rfl rfl rfl

theorem Ahead.sysUnlink (h : Ahead c t) (p : Path) : Ahead c (t.sysUnlink p).2 :=
  h.tail (Ctx.sysUnlink_log t p) rfl rfl (Script.file_tx _) rfl

theorem Ahead.sysOpenRead (h : Ahead c t) (p : Path) : Ahead c (t.sysOpenRead p).2 :=
  h.tail (Ctx.sysOpenRead_log t p) rfl rfl (Script.file_tx _) rfl

theorem Ahead.sysFstat (h : Ahead c t) (f : Handle) : Ahead c (t.sysFstat f).2 :=
  h.tail (l := []) (List.append_nil _).symm rfl rfl (Script.file_tx _) rfl

theorem Ahead.removeFileFromList (h : Ahead c t) (w : Path) :
    Ahead c (removeFileFromList t w) := by
  refine h.tail (l := []) ?_ rfl (removeFileFromList_freed t w) ?_
    (removeFileFromList_interest t w)
  · rw [removeFileFromList_log, List.append_nil]
  · rw [removeFileFromList_script]

theorem Ahead.deleteRequest (h : Ahead c t) (hs : t.client.state = .recvHeader) :
    Served c (deleteRequest t) := by
  have hfind := h.use (.find t.client.filename)
  unfold FileServer.deleteRequest
  dsimp only
  split
  · -- `strcmp` on a `NULL` entry of the list
    exact .fault h.freed hs h.interest rfl
  · exact .answered (hfind.prepareAndSendResponse _ _)
  · split_ifs
    · exact .answered (((hfind.sysUnlink _).removeFileFromList _).prepareAndSendResponse _ _)
    · exact .answered ((hfind.sysUnlink _).prepareAndSendResponse _ _)

theorem Ahead.startSendGet (h : Ahead c t) : Answered c (startSendGet t) := by
  unfold FileServer.startSendGet
  have hopen := (h.sysOpenRead t.filepath).setClient
    fun k => { k with fileFd := (t.sysOpenRead t.filepath).1 }
  dsimp only
  split
  · exact hopen.prepareAndSendResponse _ _
  · split
    · exact ((hopen.sysFstat _).closeFile).prepareAndSendResponse _ _
    · exact ((hopen.sysFstat _).setClient _).prepareAndSendResponse _ _

theorem Ahead.serveRequest (h : Ahead c t) (hs : t.client.state = .recvHeader) (q : Request) :
    Served c (serveRequest t q) := by
  have hq := h.noteRequest q
  cases q with
  | list => exact .answered (hq.prepareAndSendResponse _ _)
  | delete w => exact hq.deleteRequest hs
  | get w => exact .answered hq.startSendGet
  | put w => exact .rearmed h.freed rfl rfl ⟨_, h.log, rfl⟩ rfl
  | bad v => exact .answered (hq.prepareAndSendResponse _ _)

end Requests

/-! ### The reading loops -/

section Loops

variable {c t : Ctx}

theorem drained_log (h : Ahead c t) {n : Nat} (hr : (t.sysRead n).1 = .eagain) :
    EndsWith c.log (.read .eagain) (t.sysRead n).2.log :=
  ⟨t.log, h.log, by rw [Ctx.sysRead_log, hr]⟩

theorem readHeaderPass_exit (h : Ahead c t) (hs : t.client.state = .recvHeader) :
    match readHeaderPass t with
    | .again t' => Ahead c t' ∧ t'.client.state = .recvHeader
    | .leave t' => Ahead c t' ∧ (t'.client.headerLen ≥ maxHeaderLen - 1 ∨ Exit c t')
    | .ret t' => Exit c t' := by
  unfold readHeaderPass
  dsimp only
  split_ifs with hlen
  · cases hr : (t.sysRead 1).1 with
    | eintr => exact ⟨h.sysRead 1, hs⟩
    | eagain =>
      refine ⟨h.sysRead 1, .inr (.drained h.freed (.inl hs) h.interest (drained_log h hr) ?_)⟩
      exact ⟨fun hs' => (by cases hs.symm.trans hs'), fun hs' => (by cases hs.symm.trans hs')⟩
    | err => exact .answered (.closed rfl)
    | eof => exact .answered (.closed rfl)
    | bytes bs =>
      cases bs with
      | nil => exact .answered (.closed rfl)
      | cons b bs =>
        dsimp only
        split_ifs with hb
        · subst hb
          change Exit c (parseHeaderAndTransition (storeHeader t newline))
          rw [parseHeaderAndTransition_eq]
          cases hq : requestOf (storeHeader t newline).client.headerBuf with
          | none =>
            -- `strchr` stops at a NUL before the newline, and the function returns
            refine .stalled h.freed hs h.interest ⟨t.log, h.log, ?_⟩ ⟨_, rfl⟩ hq
            have hlog : (storeHeader t newline).log = (t.sysRead 1).2.log := rfl
            rw [hlog, Ctx.sysRead_log, sysRead_one hr]
          | some q => exact ((h.storeHeader newline).serveRequest hs q).exit
        · exact ⟨(h.sysRead 1).setClient _, hs⟩
  · exact ⟨h, .inl (Nat.le_of_not_lt hlen)⟩

theorem readHeader_exit (hc : c.freed = false) (hs : c.client.state = .recvHeader) :
    Exit c (readHeader c) := by
  obtain ⟨t, ⟨hahead, hstate⟩, heq, hfin⟩ := exec_spec readHeaderPass_decreases
    (I := fun t => Ahead c t ∧ t.client.state = .recvHeader)
    (fun t t' ⟨hahead, hstate⟩ hpass => by
      have := readHeaderPass_exit hahead hstate
      rw [hpass] at this
      exact this)
    (s := c) ⟨.refl hc, hs⟩
  have hpass := readHeaderPass_exit hahead hstate
  unfold readHeader
  rw [heq]
  cases hp : readHeaderPass t with
  | again t' => rw [hp] at hfin; exact hfin.elim
  | ret t' => rw [hp] at hpass; exact hpass
  | leave t' =>
    rw [hp] at hpass
    obtain ⟨hahead', hexit⟩ := hpass
    dsimp only
    -- behind the loop: the line is too long, or the loop was left by `break`
    split_ifs with hlen
    · exact .answered (hahead'.prepareAndSendResponse _ _)
    · exact hexit.resolve_left hlen

theorem Ahead.addFileToList (h : Ahead c t) (w : Path) : Ahead c (addFileToList t w) := by
  refine h.tail (l := []) ?_ rfl (addFileToList_freed t w) ?_ (addFileToList_interest t w)
  · rw [addFileToList_log, List.append_nil]
  · unfold FileServer.addFileToList Ctx.use
    dsimp only
    split
    · rfl
    · rfl
    · dsimp only
      split_ifs <;> simp

theorem Ahead.acceptUpload (h : Ahead c t) : Ahead c (acceptUpload t) := by
  have hread : Ahead c (readExtra t).2 := h.closeFile.sysRead 1
  have hnote : Ahead c ((readExtra t).2.note (.accept t.client.filename)) :=
    hread.tail (l := [.accept t.client.filename]) rfl rfl rfl rfl rfl
  exact hnote.addFileToList _

theorem finishUpload_exit (h : Ahead c t)
    (hall : t.client.bytesTransferred = t.client.expectedSize) : Answered c (finishUpload t) := by
  unfold finishUpload
  rw [if_pos hall]
  have hextra : Ahead c (readExtra t).2 := h.closeFile.sysRead 1
  dsimp only
  split
  · exact hextra.prepareAndSendResponse _ _
  · exact h.acceptUpload.prepareAndSendResponse _ _

theorem Ahead.abortUpload (h : Ahead c t) : Answered c (abortUpload t) :=
  h.closeFile.prepareAndSendResponse _ _

theorem recvPutDataPass_exit (h : Ahead c t) (hs : t.client.state = .recvPutData)
    (hle : t.client.bytesTransferred ≤ t.client.expectedSize) :
    match recvPutDataPass t with
    | .again t' => Ahead c t' ∧ t'.client.state = .recvPutData ∧
        t'.client.bytesTransferred ≤ t'.client.expectedSize
    | .leave t' => Ahead c t' ∧
        (t'.client.bytesTransferred = t'.client.expectedSize ∨
          t'.client.bytesTransferred ≠ t'.client.expectedSize ∧ Exit c t')
    | .ret t' => Exit c t' := by
  unfold recvPutDataPass
  dsimp only
  split_ifs with hlen
  · have hread := h.sysRead (bodyRoom t.client)
    cases hr : (t.sysRead (bodyRoom t.client)).1 with
    | eintr =>
      rw [bodyRoom] at hr
      rw [hr]
      exact ⟨hread, hs, hle⟩
    | eagain =>
      have hlog := drained_log h hr
      rw [bodyRoom] at hr
      rw [hr]
      refine ⟨hread, .inr ⟨Nat.ne_of_lt hlen,
        .drained h.freed (.inr (.inr hs)) h.interest hlog ?_⟩⟩
      exact ⟨fun hs' => (by cases hs.symm.trans hs'), fun _ => hlen⟩
    | err =>
      rw [bodyRoom] at hr
      rw [hr]
      exact .answered hread.abortUpload
    | eof =>
      rw [bodyRoom] at hr
      rw [hr]
      exact .answered hread.abortUpload
    | bytes bs =>
      have hroom := length_read_le (s := t.script) hr
      rw [bodyRoom] at hr
      rw [hr]
      cases bs with
      | nil => exact .answered hread.abortUpload
      | cons b bs =>
        cases hh : t.client.fileFd with
        | none =>
          simp only [Ctx.sysRead_client, hh]
          exact .answered hread.abortUpload
        | some f =>
          simp only [Ctx.sysRead_client, hh]
          have hwrite : Ahead c (writeBody t f (b :: bs)).2 :=
            hread.tail (l := []) (List.append_nil _).symm rfl rfl (Script.file_tx _) rfl
          change match (if (writeBody t f (b :: bs)).1 = some (b :: bs).length then
            Pass.again ((writeBody t f (b :: bs)).2.setClient fun k =>
              { k with bytesTransferred := k.bytesTransferred + (b :: bs).length })
            else .ret (abortUpload (writeBody t f (b :: bs)).2)) with
            | .again t' => Ahead c t' ∧ t'.client.state = .recvPutData ∧
                t'.client.bytesTransferred ≤ t'.client.expectedSize
            | .leave t' => _
            | .ret t' => Exit c t'
          split_ifs with hw
          · refine ⟨hwrite.setClient _, hs, ?_⟩
            change t.client.bytesTransferred + (b :: bs).length ≤ t.client.expectedSize
            simp only [bodyRoom] at hroom
            omega
          · exact .answered hwrite.abortUpload
  · exact ⟨h, .inl (Nat.le_antisymm hle (Nat.le_of_not_lt hlen))⟩

theorem recvPutData_exit (h : Ahead c t) (hs : t.client.state = .recvPutData)
    (hle : t.client.bytesTransferred ≤ t.client.expectedSize) : Exit c (recvPutData t) := by
  obtain ⟨d, ⟨hahead, hstate, hle⟩, heq, hfin⟩ := exec_spec recvPutDataPass_decreases
    (I := fun t => Ahead c t ∧ t.client.state = .recvPutData ∧
      t.client.bytesTransferred ≤ t.client.expectedSize)
    (fun t t' ⟨hahead, hstate, hle⟩ hpass => by
      have := recvPutDataPass_exit hahead hstate hle
      rw [hpass] at this
      exact this)
    (s := t) ⟨h, hs, hle⟩
  have hpass := recvPutDataPass_exit hahead hstate hle
  unfold recvPutData
  rw [heq]
  cases hp : recvPutDataPass d with
  | again t' => rw [hp] at hfin; exact hfin.elim
  | ret t' => rw [hp] at hpass; exact hpass
  | leave t' =>
    rw [hp] at hpass
    obtain ⟨hahead', hall | ⟨hne, hexit⟩⟩ := hpass
    · exact .answered (finishUpload_exit hahead' hall)
    · dsimp only
      unfold finishUpload
      rw [if_neg hne]
      exact hexit

theorem recvPutSizePass_exit (h : Ahead c t) (hs : t.client.state = .recvPutSize) :
    match recvPutSizePass t with
    | .again t' => Ahead c t' ∧ t'.client.state = .recvPutSize
    | .leave t' => Ahead c t'
    | .ret t' => Exit c t' := by
  unfold recvPutSizePass
  dsimp only
  split_ifs with hlen
  · have hread := h.sysRead (sizeLen - t.client.bytesTransferred)
    cases hr : (t.sysRead (sizeLen - t.client.bytesTransferred)).1 with
    | eintr => exact ⟨hread, hs⟩
    | eagain =>
      refine .drained h.freed (.inr (.inl hs)) h.interest (drained_log h hr) ?_
      exact ⟨fun _ => hlen, fun hs' => (by cases hs.symm.trans hs')⟩
    | err => exact .answered (hread.prepareAndSendResponse _ _)
    | eof => exact .answered (hread.prepareAndSendResponse _ _)
    | bytes bs =>
      cases bs with
      | nil => exact .answered (hread.prepareAndSendResponse _ _)
      | cons b bs => exact ⟨hread.setClient _, hs⟩
  · exact h

theorem openUpload_exit (h : Ahead c t) : Exit c (openUpload t) := by
  have hstart : Ahead c (t.setClient fun k => { k with bytesTransferred := 0 }) := h.setClient _
  have hopened : Ahead c ((t.setClient fun k => { k with bytesTransferred := 0 }).sysOpenWrite
      t.filepath).2 :=
    hstart.tail (Ctx.sysOpenWrite_log _ t.filepath) rfl rfl (Script.file_tx _) rfl
  have hopen : Ahead c (openUploadFile t).2 :=
    hopened.setClient fun k => { k with fileFd := (openUploadFile t).1 }
  unfold openUpload
  dsimp only
  split
  · exact .answered (hopen.prepareAndSendResponse _ _)
  · exact recvPutData_exit (hopen.setClient _) rfl (Nat.zero_le _)

theorem recvPutSize_exit (hc : c.freed = false) (hs : c.client.state = .recvPutSize) :
    Exit c (recvPutSize c) := by
  obtain ⟨d, ⟨hahead, hstate⟩, heq, hfin⟩ := exec_spec recvPutSizePass_decreases
    (I := fun t => Ahead c t ∧ t.client.state = .recvPutSize)
    (fun t t' ⟨hahead, hstate⟩ hpass => by
      have := recvPutSizePass_exit hahead hstate
      rw [hpass] at this
      exact this)
    (s := c) ⟨.refl hc, hs⟩
  have hpass := recvPutSizePass_exit hahead hstate
  unfold recvPutSize
  rw [heq]
  cases hp : recvPutSizePass d with
  | again t' => rw [hp] at hfin; exact hfin.elim
  | ret t' => rw [hp] at hpass; exact hpass
  | leave t' => rw [hp] at hpass; exact openUpload_exit hpass

end Loops

/-- **The ways out of `handle_read_event`.** -/
theorem handleReadEvent_exit {c : Ctx} (hc : c.freed = false)
    (hs : c.client.state.Receiving)
    (hle : c.client.state = .recvPutData → c.client.bytesTransferred ≤ c.client.expectedSize) :
    Exit c (handleReadEvent c) := by
  unfold handleReadEvent
  rcases hs with hs | hs | hs
  · rw [hs]
    exact readHeader_exit hc hs
  · rw [hs]
    exact recvPutSize_exit hc hs
  · rw [hs]
    exact recvPutData_exit (.refl hc) hs (hle hs)

/-! ### The ways out of `handle_write_event` -/

/-- A write event closes the connection, or leaves it sending and registered as before or for the
next write event. -/
inductive Awake (c c' : Ctx) : Prop
  | closed (h : c'.freed = true)
  | writing (hf : c'.freed = false) (hs : c'.client.state.Sending)
      (hi : c'.interest = some .write ∨ c'.interest = c.interest)

section Write

variable {c : Ctx}

theorem LineExit.awake {c c' : Ctx} (h : LineExit c c') : Awake c c' := by
  cases h with
  | closed h => exact .closed h
  | writing hs hi =>
    cases hf : c'.freed with
    | true => exact .closed hf
    | false => exact .writing hf hs (.inl hi)
  | waits hs hi =>
    cases hf : c'.freed with
    | true => exact .closed hf
    | false => exact .writing hf hs (.inr hi)

theorem sendListData_awake (hc : c.freed = false) (hs : c.client.state = .sendListData) :
    Awake c (sendListData c) := by
  have hsend : (writeList c).2.client.state.Sending := .inr (.inr (.inr (.inr hs)))
  unfold sendListData
  dsimp only
  split
  · exact .writing hc hsend (.inr rfl)
  · exact .closed rfl
  · split_ifs
    · exact .closed rfl
    · exact .writing hc hsend (.inr rfl)

theorem loadGetSize_frame (c : Ctx) : (loadGetSize c).freed = c.freed ∧
    (loadGetSize c).client.state = c.client.state ∧ (loadGetSize c).interest = c.interest := by
  unfold loadGetSize
  split_ifs <;> exact ⟨rfl, rfl, rfl⟩

theorem sendGetSize_awake (hc : c.freed = false) (hs : c.client.state = .sendGetSize) :
    Awake c (sendGetSize c) := by
  obtain ⟨hf, hstate, hi⟩ := loadGetSize_frame c
  have hsend : (writeLine (loadGetSize c)).2.client.state.Sending :=
    .inr (.inr (.inl (hstate.trans hs)))
  unfold sendGetSize
  dsimp only
  split
  · exact .writing (hf.trans hc) hsend (.inr hi)
  · exact .closed rfl
  · split_ifs
    · exact .writing (hf.trans hc) (.inr (.inr (.inr (.inl rfl)))) (.inl rfl)
    · exact .writing (hf.trans hc) hsend (.inr hi)

/-- A download goes on in its state, with its registration, until it is closed. -/
structure Downloading (c t : Ctx) : Prop where
  freed : t.freed = false
  state : t.client.state = .sendGetData
  interest : t.interest = c.interest

theorem Downloading.awake {t : Ctx} (h : Downloading c t) : Awake c t :=
  .writing h.freed (.inr (.inr (.inr (.inl h.state)))) (.inr h.interest)

theorem sendGetDataPass_awake {t : Ctx} (h : Downloading c t) :
    match sendGetDataPass t with
    | .again t' => Downloading c t'
    | .leave t' => Downloading c t'
    | .ret t' => Awake c t' := by
  unfold sendGetDataPass
  dsimp only
  split_ifs with hlen
  · cases hh : t.client.fileFd with
    | none => exact .closed rfl
    | some f =>
      dsimp only
      cases hp : (readData t f).1 with
      | none =>
        simp only [readData, dataRoom] at hp
        rw [hp]
        exact .closed rfl
      | some bs =>
        simp only [readData, dataRoom] at hp
        rw [hp]
        cases bs with
        | nil => exact .closed rfl
        | cons b bs =>
          dsimp only
          cases hw : ((readData t f).2.sysWrite (b :: bs)).1 with
          | eagain =>
            simp only [readData, dataRoom] at hw
            rw [hw]
            exact Downloading.awake ⟨h.freed, h.state, h.interest⟩
          | err =>
            simp only [readData, dataRoom] at hw
            rw [hw]
            exact .closed rfl
          | wrote n =>
            simp only [readData, dataRoom] at hw
            rw [hw]
            dsimp only
            split_ifs
            · exact Downloading.awake ⟨h.freed, h.state, h.interest⟩
            · exact ⟨h.freed, h.state, h.interest⟩
  · exact h

theorem sendGetData_awake (hc : c.freed = false) (hs : c.client.state = .sendGetData) :
    Awake c (sendGetData c) := by
  obtain ⟨t, ht, heq, hfin⟩ := exec_spec sendGetDataPass_decreases (I := Downloading c)
    (fun t t' ht hpass => by
      have := sendGetDataPass_awake ht
      rw [hpass] at this
      exact this)
    (s := c) ⟨hc, hs, rfl⟩
  have hpass := sendGetDataPass_awake ht
  unfold sendGetData
  rw [heq]
  cases hp : sendGetDataPass t with
  | again t' => rw [hp] at hfin; exact hfin.elim
  | ret t' => rw [hp] at hpass; exact hpass
  | leave t' =>
    rw [hp] at hpass
    dsimp only
    unfold finishGet
    split_ifs
    · exact .closed rfl
    · exact hpass.awake

/-- **The ways out of `handle_write_event`.** -/
theorem handleWriteEvent_awake (hc : c.freed = false) (hs : c.client.state.Sending) :
    Awake c (handleWriteEvent c) := by
  unfold handleWriteEvent
  rcases hs with hs | hs | hs | hs | hs
  · rw [hs]
    exact (executeSimpleResponseWrite_exit (.inl hs)).awake
  · rw [hs]
    exact (executeSimpleResponseWrite_exit (.inr hs)).awake
  · rw [hs]
    exact sendGetSize_awake hc hs
  · rw [hs]
    exact sendGetData_awake hc hs
  · rw [hs]
    exact sendListData_awake hc hs

end Write

/-! ### Events that find nothing to do -/

theorem handleReadEvent_of_sending {c : Ctx} (hs : c.client.state.Sending) :
    handleReadEvent c = c := by
  unfold handleReadEvent
  rcases hs with hs | hs | hs | hs | hs <;> rw [hs]

theorem handleWriteEvent_of_receiving {c : Ctx} (hs : c.client.state.Receiving) :
    handleWriteEvent c = c := by
  unfold handleWriteEvent
  rcases hs with hs | hs | hs <;> rw [hs]

theorem ConnState.cases (s : ConnState) : s.Receiving ∨ s.Sending ∨ s = .done := by
  cases s <;> simp [Receiving, Sending]

end FileServer
