/-
  The verdict on an upload.

  For a client that sends a PUT line, the size field and a body and then closes, the
  server's answer is a function of the bytes and of one thing more: whether the byte
  behind the declared size has arrived when `recv_put_data` looks for it, right after
  the last byte of the body.  So the answer is the right one, on every schedule of
  events, exactly if there is no such byte or it comes without a pause
  (`verdict_right_iff`).
-/
import FileServer.Delivery
import FileServer.Equiv.Exit

namespace FileServer

/-! ### Streams -/

/-- The request line of an upload. -/
def putLine (w : Path) : List Byte := nameLine (ascii "PUT") w ++ [newline]

/-- What a client sends for an upload, and how it is delivered. -/
structure PutStream where
  name : Path
  size : Nat
  body : List Byte
  rx : List RxItem
  name_text : newline ∉ name ∧ 0 ∉ name
  line_length : (putLine name).length < maxHeaderLen
  size_lt : size < 2 ^ 64
  delivers : Delivers rx (putLine name ++ sizeBytes size ++ body)

namespace PutStream

variable (u : PutStream)

def line : List Byte := putLine u.name

/-- The whole stream. -/
def bytes : List Byte := u.line ++ sizeBytes u.size ++ u.body

/-- A byte comes without a pause behind the declared size. -/
def ExtraReady : Prop :=
  ∃ b bs rest, afterBytes (u.line.length + sizeLen + u.size) u.rx = .data b bs :: rest

/-- The answer that the upload deserves. -/
def rightVerdict : Status × List Byte :=
  if u.body.length = u.size then (.ok, []) else (.error, errBadFileSize)

/-- The answer that the server gives. -/
def Verdict (v : Status × List Byte) : Prop :=
  v = (.error, errBadFileSize) ∧ (u.body.length < u.size ∨ u.ExtraReady) ∨
    v = (.ok, []) ∧ ¬ (u.body.length < u.size ∨ u.ExtraReady)

theorem requestOf_line : requestOf u.line = some (.put u.name) := by
  have hput : newline ∉ nameLine (ascii "PUT") u.name ∧ 0 ∉ nameLine (ascii "PUT") u.name := by
    simp only [nameLine, List.mem_append, not_or]
    exact ⟨⟨by decide, u.name_text.1⟩, by decide, u.name_text.2⟩
  rw [line, putLine, FileServer.requestOf_line hput.1 hput.2, requestOfLine_put]

theorem length_bytes : u.bytes.length = u.line.length + sizeLen + u.body.length := by
  rw [bytes, List.length_append, List.length_append, length_sizeBytes]; rfl

/-- The newline of the line is its last byte. -/
theorem line_of_prefix {h : List Byte} (hp : h ++ [newline] <+: u.line) :
    h ++ [newline] = u.line := by
  have hnew : newline ∉ nameLine (ascii "PUT") u.name := by
    simp only [nameLine, List.mem_append, not_or]
    exact ⟨by decide, u.name_text.1⟩
  rw [line, putLine] at hp ⊢
  rcases List.prefix_concat_iff.mp hp with heq | hp
  · exact heq
  · exact absurd (hp.subset (List.mem_append_right _ (List.mem_singleton_self _))) hnew

/-- No byte behind a body that is not too long. -/
theorem not_extraReady (h : u.body.length = u.size) : ¬ u.ExtraReady := by
  rintro ⟨b, bs, rest, hrest⟩
  have hlen : u.line.length + sizeLen + u.size = u.bytes.length := by rw [length_bytes, h]
  have hd : Delivers (afterBytes u.bytes.length u.rx) (u.bytes.drop u.bytes.length) :=
    u.delivers.afterBytes (Nat.le_refl _)
  rw [← hlen, hrest, hlen, List.drop_length] at hd
  cases hd

/-- **The verdict is right** unless the body is too long and its surplus comes late. -/
theorem verdict_right (v : Status × List Byte) (hv : u.Verdict v) :
    v = u.rightVerdict ↔ u.body.length ≤ u.size ∨ u.ExtraReady := by
  have hne : ((.ok, []) : Status × List Byte) ≠ (.error, errBadFileSize) := by simp
  unfold rightVerdict
  rcases hv with ⟨rfl, h⟩ | ⟨rfl, h⟩
  · rcases h with h | h
    · rw [if_neg (by omega)]
      exact iff_of_true rfl (.inl (by omega))
    · have hlen : u.body.length ≠ u.size := fun heq => u.not_extraReady heq h
      rw [if_neg hlen]
      exact iff_of_true rfl (.inr h)
  · rw [not_or] at h
    by_cases hlen : u.body.length = u.size
    · rw [if_pos hlen]
      exact iff_of_true rfl (.inl hlen.le)
    · rw [if_neg hlen]
      refine iff_of_false hne (not_or.mpr ⟨?_, h.2⟩)
      omega

end PutStream

/-! ### Receiving -/

/-- The last byte of the size field or of the body has just been read. -/
def AtBoundary (k : Client) : Prop :=
  k.state = .recvPutSize ∧ ¬ k.bytesTransferred < sizeLen ∨
    k.state = .recvPutData ∧ k.bytesTransferred = k.expectedSize

/-- The connection has received a part of the upload and has not answered. -/
structure Receiving (u : PutStream) (c : Ctx) : Prop where
  state : c.client.state = .recvHeader ∨ c.client.state = .recvPutSize ∨
    c.client.state = .recvPutData
  line : c.client.state ≠ .recvHeader → c.client.headerBuf = u.line
  partway : Partway u.rx u.bytes c.received c.script.rx
  boundary : AtBoundary c.client → afterBytes c.received.length u.rx = c.script.rx
  files : c.script.fx = []
  target : ∃ l, c.disk.tree.resolve (c.disk.tree.path (u.name.take 255)) = .entry l
  size_lt : c.client.expectedSize < 2 ^ 64

section Steps

variable {u : PutStream} {c c' : Ctx} {st : Status} {msg : List Byte} {n : Nat} {bs : List Byte}

theorem received_sysRead_bytes (hr : (c.sysRead n).1 = .bytes bs) :
    (c.sysRead n).2.received = c.received ++ bs := by
  rw [Conn.received_of_log (Ctx.sysRead_log c n), hr]
  exact congrArg _ (List.append_nil bs)

/-- The line of a PUT is the last thing that was received. -/
theorem takeLine_received (q : Request) (f : Client → Client) (i : Interest) :
    (((takeLine c q).setClient f).modifyEventLoop i).received = (c.sysRead 1).2.received := by
  rw [Conn.received_of_log (Ctx.modifyEventLoop_log _ _)]
  exact List.append_nil _

/-- Opening the file receives nothing. -/
theorem openUploadFile_received :
    (setState (openUploadFile c).2 .recvPutData).received = c.received := by
  have hlog : (setState (openUploadFile c).2 .recvPutData).log
      = c.log ++ [.openWrite c.filepath (openUploadFile c).1] := rfl
  rw [Conn.received_of_log hlog]
  exact List.append_nil _

namespace Receiving

theorem read_bytes (h : Receiving u c) (hn : 0 < n) (hr : (c.sysRead n).1 = .bytes bs) :
    Partway u.rx u.bytes (c.sysRead n).2.received (c.sysRead n).2.script.rx ∧
      afterBytes (c.sysRead n).2.received.length u.rx = (c.sysRead n).2.script.rx := by
  rw [received_sysRead_bytes hr]
  exact h.partway.read_bytes hn hr

theorem read_ended (h : Receiving u c) (hn : 0 < n) (hr : (c.sysRead n).1.Ended) :
    u.bytes = c.received := h.partway.read_ended hn hr

/-- While the header is read, it is a proper part of the line. -/
theorem header_lt (h : Receiving u c) (hok : ConnOk c) (hf : c.fault = false)
    (hs : c.client.state = .recvHeader) :
    c.received = c.client.headerBuf ∧ c.client.headerBuf.length < u.line.length := by
  obtain ⟨hnone, hrec⟩ := hok.request.header hf hs
  refine ⟨hrec, Nat.lt_of_not_le fun hle => ?_⟩
  obtain ⟨rest, -, hbytes⟩ := h.partway.rest
  rw [hrec] at hbytes
  have hline : u.line <+: c.client.headerBuf :=
    List.prefix_of_prefix_length_le ⟨_, (List.append_assoc ..).symm⟩ ⟨rest, hbytes.symm⟩ hle
  obtain ⟨more, hmore⟩ := hline
  rw [← hmore, requestOf_append u.requestOf_line more] at hnone
  cases hnone

/-- The next byte of the header is the next byte of the line. -/
theorem next_byte (h : Receiving u c) (hok : ConnOk c) (hf : c.fault = false)
    (hs : c.client.state = .recvHeader) {b : Byte} {bs : List Byte}
    (hr : (c.sysRead 1).1 = .bytes (b :: bs)) : c.client.headerBuf ++ [b] <+: u.line := by
  obtain ⟨hrec, hlt⟩ := h.header_lt hok hf hs
  have hb := sysRead_one hr
  obtain ⟨rest, -, hbytes⟩ := (h.read_bytes Nat.one_pos hb).1.rest
  rw [received_sysRead_bytes hb, hrec] at hbytes
  refine List.prefix_of_prefix_length_le ⟨rest, hbytes.symm⟩ ⟨_, (List.append_assoc ..).symm⟩ ?_
  rw [List.length_append, List.length_singleton]
  exact hlt

/-- The line that is parsed is the line that was sent. -/
theorem lineRead (h : Receiving u c) (hok : ConnOk c) {q : Request} (hl : LineRead c q) :
    c.client.headerBuf ++ [newline] = u.line ∧ q = .put u.name := by
  obtain ⟨bs, hr⟩ := hl.read
  have heq := u.line_of_prefix (h.next_byte hok hl.fault hl.state hr)
  have hq := hl.request
  rw [heq, u.requestOf_line] at hq
  exact ⟨heq, (Option.some.inj hq).symm⟩

/-- In the body, the size field and a part of the body were received. -/
theorem data (h : Receiving u c) (hok : ConnOk c) (hs : c.client.state = .recvPutData) :
    c.client.expectedSize = u.size ∧ c.client.bytesTransferred ≤ u.size ∧
      c.received.length = u.line.length + sizeLen + c.client.bytesTransferred ∧
      c.client.bytesTransferred ≤ u.body.length := by
  obtain ⟨-, -, -, hle, body, hbody, hlen⟩ := hok.upload.data hs
  obtain ⟨rest, -, hbytes⟩ := h.partway.rest
  rw [ReceivedBody, h.line (by simp [hs])] at hbody
  rw [hbody, PutStream.bytes] at hbytes
  simp only [List.append_assoc, List.append_cancel_left_eq] at hbytes
  obtain ⟨hsize, hrest⟩ := List.append_inj hbytes (by simp)
  have hexp : c.client.expectedSize = u.size := by
    rw [← ofLeBytes_sizeBytes h.size_lt, ← hsize, ofLeBytes_sizeBytes u.size_lt]
  refine ⟨hexp, hexp ▸ hle, ?_, ?_⟩
  · rw [hbody]
    simp only [List.length_append, length_sizeBytes, hlen, sizeLen]
  · rw [hrest, List.length_append]
    omega

/-- With the size field incomplete, so is the stream. -/
theorem size_lt_bytes (h : Receiving u c) (hok : ConnOk c) (hs : c.client.state = .recvPutSize)
    (hlen : c.client.bytesTransferred < sizeLen) : c.received.length < u.bytes.length := by
  obtain ⟨-, -, -, -, hrec⟩ := hok.upload.size hs
  have hle := List.length_take_le c.client.bytesTransferred (sizeBytes c.client.expectedSize)
  rw [hrec, h.line (by simp [hs]), u.length_bytes, List.length_append]
  omega

/-- The upload file can be opened. -/
theorem open_ne_none (h : Receiving u c) (hok : ConnOk c) (hs : c.client.state = .recvPutSize) :
    (openUploadFile c).1 ≠ none := by
  have hpath : c.filepath = c.disk.tree.path (u.name.take 255) := by
    have hname := hok.request.name
    rw [h.line (by simp [hs]), u.requestOf_line] at hname
    rw [hok.request.toHeaderOk.filepath_eq, hname]
    rfl
  obtain ⟨l, hl⟩ := h.target
  rw [← hpath] at hl
  intro hnone
  have hopen : (openUploadFile c).1 = (c.disk.openWrite c.filepath).1 := by
    rcases (c.setClient fun k => { k with bytesTransferred := 0 }).sysOpenWrite_cases c.filepath
      with ⟨-, -, hfail⟩ | ⟨hopen, -⟩
    · rw [Ctx.setClient_script, Script.file, h.files] at hfail
      cases hfail
    · exact hopen
  exact (c.disk.openWrite_eq_none.mp (hopen.symm.trans hnone)) l hl

/-- All bytes are written. -/
theorem writeBody_all (h : Receiving u c) (f : Handle) (bs : List Byte) :
    (writeBody c f bs).1 = some bs.length := by
  have hfx : (c.sysRead (bodyRoom c.client)).2.script.fx = [] :=
    (Script.read_fx c.script _).trans h.files
  simp only [writeBody, Ctx.sysPwrite, Script.file, hfx]

theorem readExtra_fst (c : Ctx) : (readExtra c).1 = (c.script.read 1).1 := rfl

/-- No answer is chosen before the line is complete. -/
theorem choose_state (h : Receiving u c) (hok : ConnOk c) (hf : c.fault = false)
    (hch : Choose c c' st msg) : c.client.state ≠ .recvHeader := by
  intro hs
  have hline : ∀ {q}, LineRead c q → q = .put u.name := fun hl => (h.lineRead hok hl).2
  cases hch with
  | tooLong _ hlen =>
    have hlt := (h.header_lt hok hf hs).2
    have hroom := u.line_length
    rw [hok.request.len] at hlen
    simp only [PutStream.line, maxHeaderLen] at *
    omega
  | bad hl | list hl | deleteAbsent hl | deleteFailed hl | deleted hl | getMissing hl
  | getFailed hl | getOpened hl => cases hline hl
  | sizeCut hs' | openFailed hs' | bodyCut hs' | noFile hs' | bodyFailed hs' | extraByte hs'
  | accepted hs' | listNoMemory hs' => cases hs.symm.trans hs'

/-- **The answer is the verdict.** -/
theorem choose (h : Receiving u c) (hok : ConnOk c) (hh : HandleOk c) (hc : c.freed = false)
    (hf : c.fault = false) (hch : Choose c c' st msg) : u.Verdict (st, msg) := by
  have hstate := h.choose_state hok hf hch
  have hrecv := h.state
  cases hch with
  | tooLong hs => exact absurd hs hstate
  | bad hl | list hl | deleteAbsent hl | deleteFailed hl | deleted hl | getMissing hl
  | getFailed hl | getOpened hl => exact absurd hl.state hstate
  | sizeCut hs hlen hr =>
    have hlt := h.size_lt_bytes hok hs hlen
    rw [h.read_ended (by simp only [sizeLen] at *; omega) hr] at hlt
    exact absurd hlt (Nat.lt_irrefl _)
  | openFailed hs hlen ho => exact absurd ho (h.open_ne_none hok hs)
  | bodyCut hs hlen hr =>
    -- the end of the stream inside the body
    obtain ⟨hexp, -, hrec, -⟩ := h.data hok hs
    have hroom : 0 < bodyRoom c.client := by simp only [bodyRoom, bufferSize]; omega
    have hall := congrArg List.length (h.read_ended hroom hr)
    rw [u.length_bytes, hrec] at hall
    exact .inl ⟨rfl, .inl (by omega)⟩
  | noFile hs hlen hr hnone =>
    obtain ⟨l, gen, hu⟩ := hh hc hs
    cases hnone.symm.trans hu.fd
  | bodyFailed hs hlen hr hne hfd hw => exact absurd (h.writeBody_all _ _) hw
  | extraByte hs hlen hr =>
    -- the extra read is made at the place that `ExtraReady` speaks of
    obtain ⟨hexp, -, hrec, -⟩ := h.data hok hs
    have hrest := h.boundary (.inr ⟨hs, hlen⟩)
    rw [hrec, hlen, hexp] at hrest
    refine .inl ⟨rfl, .inr ?_⟩
    rw [readExtra_fst, Script.read] at hr
    cases hrx : c.script.rx with
    | nil => simp [hrx] at hr
    | cons x rx =>
      cases x with
      | data b bs => exact ⟨b, bs, rx, hrest.trans hrx⟩
      | _ => simp [hrx] at hr
  | accepted hs hlen hr =>
    obtain ⟨hexp, -, hrec, hbody⟩ := h.data hok hs
    have hrest := h.boundary (.inr ⟨hs, hlen⟩)
    rw [hrec, hlen, hexp] at hrest
    refine .inr ⟨rfl, not_or.mpr ⟨by omega, ?_⟩⟩
    rintro ⟨b, bs, rx, hrx⟩
    refine hr b [] ?_
    rw [readExtra_fst, Script.read, ← hrest, hrx]
    rfl
  | listNoMemory hs => simp [hs] at hrecv

end Receiving

/-! ### Progress -/

/-- What is left to do before the answer. -/
def pending (c : Ctx) : Nat :=
  2 * rxWeight c.script.rx + if c.client.state = .recvPutSize then 1 else 0

theorem pending_of_size (hs : c.client.state = .recvPutSize) :
    pending c = 2 * rxWeight c.script.rx + 1 := by rw [pending, if_pos hs]

theorem pending_of_ne (hs : c.client.state ≠ .recvPutSize) :
    pending c = 2 * rxWeight c.script.rx := by rw [pending, if_neg hs, Nat.add_zero]

theorem pending_congr (hs : c'.client.state = c.client.state)
    (hrx : c'.script.rx = c.script.rx) : pending c' = pending c := by
  rw [pending, pending, hs, hrx]

theorem pending_lt (hs : c'.client.state = c.client.state)
    (hrx : rxWeight c'.script.rx < rxWeight c.script.rx) : pending c' < pending c := by
  rw [pending, pending, hs]
  omega


namespace Receiving

theorem read_lt (h : Receiving u c) (hn : 0 < n) (hr : (c.sysRead n).1 = .bytes bs) :
    rxWeight (c.sysRead n).2.script.rx < rxWeight c.script.rx := by
  obtain ⟨rest, hrest, -⟩ := h.partway.rest
  exact rxWeight_read_bytes hr (hrest.read_bytes hn hr).1

/-- A read that finds nothing yet takes an item off the input. -/
theorem idle_lt (h : Receiving u c)
    (hr : (c.sysRead n).1 = .eagain ∨ (c.sysRead n).1 = .eintr) :
    rxWeight (c.sysRead n).2.script.rx < rxWeight c.script.rx := by
  obtain ⟨rest, hrest, -⟩ := h.partway.rest
  have hne := hrest.ne_nil
  rw [Ctx.sysRead_fst] at hr
  rw [Ctx.sysRead_script]
  unfold Script.read at hr ⊢
  cases hrx : c.script.rx with
  | nil => exact absurd hrx hne
  | cons x rx =>
    simp only [hrx] at hr ⊢
    cases x <;> simp_all [rxWeight]

theorem quiet (h : Receiving u c) (hq : Quiet c c') :
    Receiving u c' ∧ (pending c' < pending c ∨ pending c' = pending c ∧ c'.log = c.log) := by
  cases hq with
  | @read n hn hr =>
    have hrec : (c.sysRead n).2.received = c.received := by
      rw [Conn.received_of_log (Ctx.sysRead_log c n)]
      rcases hr with hr | hr <;> rw [hr] <;> exact List.append_nil _
    refine ⟨⟨h.state, h.line, by rw [hrec]; exact h.partway.read_idle hr, fun hb => ?_,
      (Script.read_fx c.script n).trans h.files, h.target, h.size_lt⟩, .inl ?_⟩
    · -- the server does not wait at a boundary
      cases hn with
      | header hs => rcases hb with ⟨hb, -⟩ | ⟨hb, -⟩ <;> cases hs.symm.trans hb
      | size hs hlen =>
        rcases hb with ⟨-, hb⟩ | ⟨hb, -⟩
        · exact absurd hlen hb
        · cases hs.symm.trans hb
      | body hs hlen =>
        rcases hb with ⟨hb, -⟩ | ⟨-, hb⟩
        · cases hs.symm.trans hb
        · exact absurd hb (Nat.ne_of_lt hlen)
    · exact pending_lt rfl (h.idle_lt hr)
  | write hw hs =>
    obtain ⟨h1, h2, h3, -⟩ := hs.ne
    exact absurd h.state (by simpa using ⟨h1, h2, h3⟩)
  | pread f count off =>
    have hrx : (c.sysPread f count off).2.script.rx = c.script.rx := Script.file_rx _
    exact ⟨⟨h.state, h.line, by rw [hrx]; exact h.partway, by rw [hrx]; exact h.boundary,
      Script.file_fx_nil h.files, h.target, h.size_lt⟩, .inr ⟨pending_congr rfl hrx, rfl⟩⟩

theorem receive (h : Receiving u c) (hr : Receive c c') :
    Receiving u c' ∧ pending c' < pending c := by
  cases hr with
  | @header b bs hf hs hlen hr hb =>
    obtain ⟨hpart, -⟩ := h.read_bytes Nat.one_pos hr
    refine ⟨⟨.inl hs, fun hne => absurd hs hne, hpart, fun hb => ?_,
      (Script.read_fx ..).trans h.files, h.target, h.size_lt⟩,
      pending_lt rfl (h.read_lt Nat.one_pos hr)⟩
    rcases hb with ⟨hb, -⟩ | ⟨hb, -⟩ <;> cases hs.symm.trans hb
  | @size bs hs hlen hr hne =>
    have hn : 0 < sizeLen - c.client.bytesTransferred := by omega
    obtain ⟨hpart, hexact⟩ := h.read_bytes hn hr
    have hle := length_read_le (s := c.script) hr
    refine ⟨⟨.inr (.inl hs), fun _ => h.line (by simp [hs]), hpart, fun _ => hexact,
      (Script.read_fx ..).trans h.files, h.target, pokeSize_lt ?_⟩,
      pending_lt rfl (h.read_lt hn hr)⟩
    simp only [Ctx.sysRead_client, sizeLen] at *
    omega
  | @body bs f hs hlen hr hne hfd hw =>
    have hn : 0 < bodyRoom c.client := by simp only [bodyRoom, bufferSize]; omega
    obtain ⟨hpart, hexact⟩ := h.read_bytes hn hr
    have hrx : (writeBody c f bs).2.script.rx = (c.sysRead (bodyRoom c.client)).2.script.rx :=
      Script.file_rx _
    have htree : (writeBody c f bs).2.disk.tree = c.disk.tree :=
      (Ctx.sysPwrite_grows (c.sysRead _).2 _ _ f).tree
    refine ⟨⟨.inr (.inr hs), fun _ => h.line (by simp [hs]), ?_, fun _ => ?_,
      Script.file_fx_nil ((Script.read_fx ..).trans h.files), ?_, h.size_lt⟩, pending_lt rfl ?_⟩
    · rw [Ctx.setClient_script, hrx]; exact hpart
    · rw [Ctx.setClient_script, hrx]; exact hexact
    · rw [Ctx.setClient_toGlobals, htree]; exact h.target
    · rw [Ctx.setClient_script, hrx]; exact h.read_lt hn hr

theorem begins (h : Receiving u c) (hok : ConnOk c) (hb : Begin c c') :
    Receiving u c' ∧ pending c' < pending c := by
  cases hb with
  | @put w hl =>
    obtain ⟨bs, hr⟩ := hl.read
    have hr := sysRead_one hr
    obtain ⟨hpart, -⟩ := h.read_bytes Nat.one_pos hr
    have hlt := h.read_lt Nat.one_pos hr
    refine ⟨⟨.inr (.inl rfl), fun _ => (h.lineRead hok hl).1,
      by rw [takeLine_received]; exact hpart,
      fun hb => ?_, (Script.read_fx ..).trans h.files, h.target, h.size_lt⟩, ?_⟩
    · rcases hb with ⟨-, hb⟩ | ⟨hb, -⟩
      · exact absurd (Nat.succ_pos _) hb
      · cases hb
    · rw [pending_of_ne (c := c) (by simp [hl.state]), pending_of_size rfl]
      change 2 * rxWeight (c.sysRead 1).2.script.rx + 1 < _
      omega
  | @upload f hs hlen ho =>
    have hrx : (setState (openUploadFile c).2 .recvPutData).script.rx = c.script.rx :=
      Script.file_rx _
    have hrec := openUploadFile_received (c := c)
    have htree : (setState (openUploadFile c).2 .recvPutData).disk.tree = c.disk.tree :=
      (Ctx.sysOpenWrite_grows (c.setClient _) _).tree
    refine ⟨⟨.inr (.inr rfl), fun _ => h.line (by simp [hs]), by rw [hrec, hrx]; exact h.partway,
      fun _ => by rw [hrec, hrx]; exact h.boundary (.inl ⟨hs, hlen⟩), Script.file_fx_nil h.files,
      by rw [htree]; exact h.target, h.size_lt⟩, ?_⟩
    rw [pending_of_size hs, pending_of_ne (by simp [setState]), hrx]
    omega

theorem not_close (h : Receiving u c) (hok : ConnOk c) (hf : c.fault = false) :
    ¬ Close c c' := by
  intro hcl
  have hrecv := h.state
  cases hcl with
  | header hs hlen hr =>
    obtain ⟨hrec, hlt⟩ := h.header_lt hok hf hs
    have hall := h.read_ended Nat.one_pos hr
    rw [← hrec, ← hall, u.length_bytes] at hlt
    omega
  | line hs => rcases hs with hs | hs <;> simp [hs] at hrecv
  | replied hs => rcases hs with hs | ⟨hs, -⟩ <;> simp [hs] at hrecv
  | size hs | noFile hs | pread hs | data hs | got hs | list hs | listed hs => simp [hs] at hrecv

theorem not_send (h : Receiving u c) : ¬ Send c c' := by
  intro hs
  obtain ⟨h1, h2, h3, -⟩ := hs.of_sending.ne
  exact h.state.elim h1 fun hs' => hs'.elim h2 h3

/-- A step that does not answer goes on receiving, and has made progress if it shows in the log. -/
theorem step (h : Receiving u c) (hok : ConnOk c) (hf : c.fault = false) (hstep : Step c c') :
    (∃ d st msg, Choose c d st msg ∧ c' = fillResponse d st msg) ∨
      Receiving u c' ∧ c'.freed = c.freed ∧ c'.fault = false ∧
        (pending c' < pending c ∨ pending c' = pending c ∧ c'.log = c.log) := by
  cases hstep with
  | quiet hq =>
    obtain ⟨h1, h2⟩ := h.quiet hq
    exact .inr ⟨h1, by cases hq <;> rfl, by cases hq <;> exact hf, h2⟩
  | receive hr =>
    obtain ⟨h1, h2⟩ := h.receive hr
    exact .inr ⟨h1, by cases hr <;> rfl, by cases hr <;> exact hf, .inl h2⟩
  | begin hb =>
    obtain ⟨h1, h2⟩ := h.begins hok hb
    exact .inr ⟨h1, by cases hb <;> rfl, by cases hb <;> exact hf, .inl h2⟩
  | choose hch => exact .inl ⟨_, _, _, hch, rfl⟩
  | send hs => exact absurd hs h.not_send
  | close hcl => exact absurd hcl (h.not_close hok hf)
  | fault hl => cases (h.lineRead hok hl).2

end Receiving

/-- The verdict has been given. -/
structure Judged (u : PutStream) (c : Conn) : Prop where
  verdict : ∃ v, u.Verdict v ∧ c.replies = [v]
  verb : c.client.requestVerb = .put

/-- An upload in the hands of a handler. -/
structure InHand (u : PutStream) (c : Ctx) : Prop where
  ok : ConnOk c
  handle : HandleOk c
  progress : Judged u c.toConn ∨
    c.freed = false ∧ c.fault = false ∧ c.replies = [] ∧ Receiving u c

/-- A verdict is not changed. -/
theorem Judged.step (h : Judged u c.toConn) (hok : ConnOk c) (hstep : Step c c') :
    Judged u c'.toConn := by
  obtain ⟨v, hv, hreplies⟩ := h.verdict
  have hsilent : ¬ (c.client.state = .recvHeader ∨ c.client.state = .recvPutSize ∨
      c.client.state = .recvPutData) := fun hs => by
    have hnil := (hok.reply.silent hs).2
    rw [hreplies] at hnil
    cases hnil
  have hverb := (hstep.sameHeader fun hs => hsilent (.inl hs)).2.verb
  refine ⟨?_, hverb.trans h.verb⟩
  rcases hstep.replies with heq | ⟨d, st, msg, hch, rfl⟩
  · exact ⟨v, hv, heq.trans hreplies⟩
  · rcases hch.state with hs | hs | hs | ⟨-, hlist⟩
    · exact absurd (.inl hs) hsilent
    · exact absurd (.inr (.inl hs)) hsilent
    · exact absurd (.inr (.inr hs)) hsilent
    · cases h.verb.symm.trans hlist

theorem InHand.step (h : InHand u c) (hc : c.freed = false) (hstep : Step c c') : InHand u c' := by
  refine ⟨connOk_stable.step c c' hc h.ok hstep, h.handle.step hc hstep, ?_⟩
  rcases h.progress with hj | ⟨-, hf, hr, hrecv⟩
  · exact .inl (hj.step h.ok hstep)
  rcases hrecv.step h.ok hf hstep with ⟨d, st, msg, hch, rfl⟩ | ⟨hrecv', hc', hf', -⟩
  · have hne := hrecv.choose_state h.ok hf hch
    have hsending : c.client.state ≠ .sendOk := fun hs => by
      have hstate := hrecv.state
      simp [hs] at hstate
    have hlog : (fillResponse d st msg).log = d.log ++ [.reply st msg] := rfl
    refine .inl ⟨⟨(st, msg), hrecv.choose h.ok h.handle hc hf hch, ?_⟩, ?_⟩
    · rw [Conn.replies_of_log hlog, hch.replies_nil h.ok.reply hsending]
      rfl
    · refine (hch.sameHeader hne).verb.trans ?_
      rcases hrecv.state with hs | hs | hs
      · exact absurd hs hne
      · exact h.ok.request.upload hs
      · exact (h.ok.upload.data hs).2.2.1
  · refine .inr ⟨hc'.trans hc, hf', ?_, hrecv'⟩
    exact ((connOk_stable.step c c' hc h.ok hstep).reply.silent hrecv'.state).2

theorem InHand.steps (h : InHand u c) (hsteps : Steps c c') : InHand u c' :=
  Chain.invariant (P := InHand u) (fun _ _ hxy hx => hx.step hxy.1 hxy.2) hsteps h

/-- Without an answer, what shows in the log is progress. -/
theorem InHand.pending_lt (h : InHand u c) (hsteps : Steps c c') :
    Judged u c'.toConn ∨ pending c' < pending c ∨ pending c' = pending c ∧ c'.log = c.log := by
  induction hsteps with
  | refl => exact .inr (.inr ⟨rfl, rfl⟩)
  | @tail x y hcx hxy ih =>
    have hx := h.steps hcx
    rcases hx.progress with hj | ⟨-, hf, -, hrecv⟩
    · exact .inl (hj.step hx.ok hxy.2)
    · rcases ih with hj | ih
      · exact .inl (hj.step hx.ok hxy.2)
      rcases hrecv.step hx.ok hf hxy.2 with ⟨d, st, msg, hch, rfl⟩ | ⟨hrecv', -, -, hprog⟩
      · rcases (hx.step hxy.1 hxy.2).progress with hj | ⟨-, -, hnil, -⟩
        · exact .inl hj
        · have hlog : (fillResponse d st msg).log = d.log ++ [.reply st msg] := rfl
          rw [Conn.replies_of_log hlog] at hnil
          exact absurd hnil (by simp [Call.reply?])
      · right
        rcases ih with ih | ⟨ih, ihlog⟩ <;> rcases hprog with hprog | ⟨hprog, hlog⟩
        · exact .inl (hprog.trans ih)
        · exact .inl (by omega)
        · exact .inl (by omega)
        · exact .inr ⟨hprog.trans ih, hlog.trans ihlog⟩

/-- **A READ event answers or makes progress.** -/
theorem InHand.handleReadEvent (h : InHand u c) (hc : c.freed = false) (hf : c.fault = false)
    (hs : c.client.state.Receiving) :
    InHand u (handleReadEvent c) ∧
      (Judged u (handleReadEvent c).toConn ∨ pending (handleReadEvent c) < pending c) := by
  have hsteps := handleReadEvent_steps hc hf
  have hhand := h.steps hsteps
  refine ⟨hhand, ?_⟩
  have hexit := handleReadEvent_exit hc hs fun hs => (h.ok.upload.data hs).2.2.2.1
  rcases h.pending_lt hsteps with hj | hlt | ⟨-, hlog⟩
  · exact .inl hj
  · exact .inr hlt
  -- nothing shows in the log, but each way out but an answer ends with a call that does
  have hgrow : ∀ {x : Call}, ¬ EndsWith c.log x (FileServer.handleReadEvent c).log := by
    rintro x ⟨l, hl, heq⟩
    have hlen := congrArg List.length (heq.symm.trans hlog)
    have hle := hl.length_le
    rw [List.length_append, List.length_singleton] at hlen
    omega
  rcases hhand.progress with hj | ⟨hf', hfault', -, hrecv⟩
  · exact .inl hj
  cases hexit with
  | answered ha =>
    cases ha with
    | closed hcl => cases hf'.symm.trans hcl
    | writing hs => exact absurd hrecv.state (by simpa using ⟨hs.ne.1, hs.ne.2.1, hs.ne.2.2.1⟩)
    | waits hs => exact absurd hrecv.state (by simpa using ⟨hs.ne.1, hs.ne.2.1, hs.ne.2.2.1⟩)
  | drained _ _ _ hlog => exact absurd hlog hgrow
  | rearmed _ _ _ hlog => exact absurd hlog hgrow
  | stalled _ _ _ hlog => exact absurd hlog hgrow
  | fault _ _ _ hfault => cases hfault'.symm.trans hfault

end Steps

/-! ### Runs -/

/-- The upload before and after its answer, whatever happens to the process. -/
structure OnTheWay (u : PutStream) (c : Ctx) : Prop where
  ok : ConnOk c
  handle : HandleOk c
  progress : Judged u c.toConn ∨
    c.replies = [] ∧ (c.freed = false → c.fault = false → Receiving u c)

theorem InHand.onTheWay {u : PutStream} {c : Ctx} (h : InHand u c) : OnTheWay u c :=
  ⟨h.ok, h.handle, h.progress.imp_right fun ⟨_, _, hr, hrecv⟩ => ⟨hr, fun _ _ => hrecv⟩⟩

theorem OnTheWay.inHand {u : PutStream} {c : Ctx} (h : OnTheWay u c) (hc : c.freed = false)
    (hf : c.fault = false) : InHand u c :=
  ⟨h.ok, h.handle, h.progress.imp_right fun ⟨hr, hrecv⟩ => ⟨hc, hf, hr, hrecv hc hf⟩⟩

theorem Receiving.globals {u : PutStream} {c : Ctx} {g : Globals} (h : Receiving u c)
    (hg : c.disk.Grows g.disk) : Receiving u { c with toGlobals := g } :=
  ⟨h.state, h.line, h.partway, h.boundary, h.files, by rw [hg.tree]; exact h.target, h.size_lt⟩

theorem onTheWay_lasting (u : PutStream) : Lasting (OnTheWay u) where
  handled := fun c c' hc hf h hc' => by
    cases hc' with
    | steps hsteps => exact ((h.inHand hc hf).steps hsteps).onTheWay
    | closed =>
      refine ⟨connOk_stable.close c hc h.ok, handleOk_stable.close c hc h.handle, ?_⟩
      rcases h.progress with ⟨⟨v, hv, hr⟩, hverb⟩ | ⟨hr, -⟩
      · refine .inl ⟨⟨v, hv, (closeAndCleanup_replies c).trans hr⟩, ?_⟩
        rw [closeAndCleanup_client]
        exact hverb
      · exact .inr ⟨(closeAndCleanup_replies c).trans hr, fun hf => by cases hf⟩
  globals := fun c g hg hf h => by
    refine ⟨connOk_stable.globals c g hg hf h.ok, handleOk_stable.globals c g hg hf h.handle, ?_⟩
    rcases h.progress with hj | ⟨hr, hrecv⟩
    · exact .inl hj
    · refine .inr ⟨hr, fun hc hfault => (hrecv hc ?_).globals hg⟩
      -- once the process has died it stays dead
      by_contra h
      have hg' : g.fault = true := hf (by simpa using h)
      cases hfault.symm.trans hg'

/-- The verdict has been given, once for all. -/
structure Concluded (u : PutStream) (c : Ctx) : Prop where
  ok : ConnOk c
  judged : Judged u c.toConn

theorem concluded_kept (u : PutStream) : Kept (Concluded u) where
  step := fun c c' hc h hstep => ⟨connOk_stable.step c c' hc h.ok hstep, h.judged.step h.ok hstep⟩
  close := fun c hc h => by
    obtain ⟨v, hv, hr⟩ := h.judged.verdict
    refine ⟨connOk_stable.close c hc h.ok, ⟨v, hv, (closeAndCleanup_replies c).trans hr⟩, ?_⟩
    rw [closeAndCleanup_client]
    exact h.judged.verb
  globals := fun c g hg hf h => ⟨connOk_stable.globals c g hg hf h.ok, h.judged⟩

/-- An event that is handed to `handle_read_event`. -/
def Action.reads (fd : Int) : Action → Bool
  | .event fd' ev => decide (fd' = fd) && ev.read && !ev.error
  | .accept _ _ => false

/-- An event of a broken socket. -/
def Action.breaks (fd : Int) : Action → Bool
  | .event fd' ev => decide (fd' = fd) && ev.error
  | .accept _ _ => false

/-- In every run from here the connection gets this answer and no other; it does get it when it
was served often enough. -/
structure Decides (s : Server) (fd : Int) (i : ConnId) (v : Status × List Byte) : Prop where
  only : ∀ (acts : List Action) (conn : Conn), (s.run acts).conns[i]? = some conn →
    conn.replies = [] ∨ conn.replies = [v]
  served : ∃ n, ∀ (acts : List Action) (conn : Conn), (s.run acts).conns[i]? = some conn →
    (s.run acts).fault = false → (∀ a ∈ acts, a.breaks fd = false) →
    n ≤ acts.countP (Action.reads fd) → conn.replies ≠ []

/-- The connection `i` with descriptor `fd` receives the upload. -/
structure Uploading (u : PutStream) (s : Server) (fd : Int) (i : ConnId) (conn : Conn) : Prop where
  map : MapInv s
  get : dictionaryGet s.fdToClient fd = some i
  found : s.conns[i]? = some conn
  live : conn.freed = false
  fault : s.fault = false
  hand : InHand u (s.ctx conn)
  receiving : Receiving u (s.ctx conn)

section Runs

variable {u : PutStream} {s : Server} {fd : Int} {i : ConnId} {conn : Conn}

/-- **One event of the connection**: an answer, or progress with every READ. -/
theorem InHand.serveEvent {c : Ctx} (h : InHand u c) (hc : c.freed = false) (hf : c.fault = false)
    (hrecv : Receiving u c) {ev : Events} (he : ev.error = false)
    (hf' : (serveEvent c ev).fault = false) :
    Concluded u (serveEvent c ev) ∨
      InHand u (serveEvent c ev) ∧ (serveEvent c ev).freed = false ∧
        Receiving u (serveEvent c ev) ∧
        pending (serveEvent c ev) + (if ev.read then 1 else 0) ≤ pending c := by
  have hread : ∃ d, (if ev.read then FileServer.handleReadEvent c else c) = d ∧ InHand u d ∧
      (Judged u d.toConn ∨ pending d + (if ev.read then 1 else 0) ≤ pending c) := by
    by_cases hr : ev.read = true
    · rw [if_pos hr, if_pos hr]
      exact ⟨_, rfl, h.handleReadEvent hc hf hrecv.state⟩
    · rw [if_neg hr, if_neg hr]
      exact ⟨_, rfl, h, .inr (Nat.le_refl _)⟩
  obtain ⟨d, hd, hhand, hprog⟩ := hread
  unfold FileServer.serveEvent at hf' ⊢
  rw [if_neg (by simp [he]), hd] at hf' ⊢
  dsimp only at hf' ⊢
  rcases hhand.progress with hj | ⟨hdf, -, -, hdrecv⟩
  · left
    have hset : Concluded u d := ⟨hhand.ok, hj⟩
    split_ifs with hw hfreed hs
    · rw [if_pos hw, if_pos hfreed] at hf'
      cases hf'
    · exact (concluded_kept u).steps (handleWriteEvent_steps (by simpa using hfreed)) hset
    · exact hset
    · exact hset
  · have hserve : (if ev.write = true then
        if d.freed = true then { d with fault := true }
        else if d.client.state ≠ .recvHeader then handleWriteEvent d else d else d) = d := by
      have hnf : ¬ d.freed = true := by simp [hdf]
      rw [if_neg hnf, handleWriteEvent_of_receiving hdrecv.state, ite_self, ite_self]
    rw [hserve]
    rcases hprog with hj | hle
    · exact .inl ⟨hhand.ok, hj⟩
    · exact .inr ⟨hhand, hdf, hdrecv, hle⟩

theorem Uploading.event (h : Uploading u s fd i conn) {ev : Events} (he : ev.error = false)
    (hf' : (s.act (.event fd ev)).fault = false) :
    ∃ conn', (s.act (.event fd ev)).conns[i]? = some conn' ∧
      (Concluded u ((s.act (.event fd ev)).ctx conn') ∨
        Uploading u (s.act (.event fd ev)) fd i conn' ∧
        pending ((s.act (.event fd ev)).ctx conn') + (if ev.read then 1 else 0)
          ≤ pending (s.ctx conn)) := by
  have hact : s.act (.event fd ev) = s.put i (serveEvent (s.ctx conn) ev) := by
    have hnf : ¬ s.fault = true := by rw [h.fault]; simp
    rw [← handleEvent_eq ev h.get h.found]
    exact if_neg hnf
  have hmap := h.map.act (.event fd ev)
  have hi' : (s.act (.event fd ev)).conns[i]? = some (serveEvent (s.ctx conn) ev).toConn := by
    rw [hact]
    exact Server.put_conns_self _ h.found
  have hget := h.map.get_turn (Server.act_turn h.map (.event fd ev)) h.get hi'
  rw [hact] at hf' hmap hget hi' ⊢
  refine ⟨_, hi', ?_⟩
  rcases h.hand.serveEvent h.live h.fault h.receiving he hf' with hj | ⟨h1, h2, h3, h4⟩
  · exact .inl hj
  · exact .inr ⟨⟨hmap, hget h2, hi', h2, hf', h1, h3⟩, h4⟩

/-- Any action other than the error event of the connection. -/
theorem Uploading.act (h : Uploading u s fd i conn) {a : Action} (ha : a.breaks fd = false)
    (hf' : (s.act a).fault = false) :
    ∃ conn', (s.act a).conns[i]? = some conn' ∧
      (Concluded u ((s.act a).ctx conn') ∨ Uploading u (s.act a) fd i conn' ∧
        pending ((s.act a).ctx conn') + (if a.reads fd then 1 else 0)
          ≤ pending (s.ctx conn)) := by
  by_cases hown : ∃ ev, a = .event fd ev
  · obtain ⟨ev, rfl⟩ := hown
    have he : ev.error = false := by simpa [Action.breaks] using ha
    obtain ⟨conn', hi', hj | ⟨h1, h2⟩⟩ := h.event he hf'
    · exact ⟨conn', hi', .inl hj⟩
    · refine ⟨conn', hi', .inr ⟨h1, ?_⟩⟩
      simpa [Action.reads, he] using h2
  · have hne : ∀ ev, a ≠ .event fd ev := fun ev heq => hown ⟨ev, heq⟩
    have hi' := (Server.conns_act_of_ne h.map h.get hne).trans h.found
    have hgrows := (Server.turn_le (Server.act_turn h.map a)).disk
    have hreads : a.reads fd = false := by
      cases a with
      | accept => rfl
      | event fd' ev =>
        have hfd : fd' ≠ fd := fun heq => hne ev (heq ▸ rfl)
        simp [Action.reads, hfd]
    refine ⟨conn, hi', .inr ⟨⟨h.map.act a, ?_, hi', h.live, hf', ?_, ?_⟩, ?_⟩⟩
    · exact h.map.get_turn (Server.act_turn h.map a) h.get hi' h.live
    · have hmono : (s.ctx conn).fault = true → (s.act a).toGlobals.fault = true := fun hft => by
        cases h.fault.symm.trans hft
      exact ((onTheWay_lasting u).globals (s.ctx conn) (s.act a).toGlobals hgrows hmono
        h.hand.onTheWay).inHand h.live hf'
    · exact h.receiving.globals hgrows
    · rw [hreads]
      exact Nat.le_of_eq rfl

/-- **A run**: an answer, or progress with every READ event. -/
theorem Uploading.run (h : Uploading u s fd i conn) {acts : List Action}
    (ha : ∀ a ∈ acts, a.breaks fd = false) (hf : (s.run acts).fault = false) :
    ∃ conn', (s.run acts).conns[i]? = some conn' ∧
      (Judged u conn' ∨ acts.countP (Action.reads fd) ≤ pending (s.ctx conn)) := by
  induction acts generalizing s conn with
  | nil => exact ⟨conn, h.found, .inr (Nat.zero_le _)⟩
  | cons a acts ih =>
    rw [List.forall_mem_cons] at ha
    have hf' : (s.act a).fault = false := Server.fault_of_run acts hf
    obtain ⟨conn', hi', hj | ⟨h', hle⟩⟩ := h.act ha.1 hf'
    · obtain ⟨conn'', hi'', -⟩ := (Server.run_le (h.map.act a) acts).conns i conn' hi'
      have hset := (concluded_kept u).lasting.run (h.map.act a) acts hi' hi'' hj
      exact ⟨conn'', hi'', .inl hset.judged⟩
    · obtain ⟨conn'', hi'', hj | hcount⟩ := ih h' ha.2 hf
      · exact ⟨conn'', hi'', .inl hj⟩
      · refine ⟨conn'', hi'', .inr ?_⟩
        rw [List.countP_cons]
        omega

/-- A new connection that will receive the upload. -/
theorem Uploading.accept (hs : Reachable s) {script : Script} (hrx : script.rx = u.rx)
    (hfx : script.fx = [])
    (hopen : ∃ l, s.disk.tree.resolve (s.disk.tree.path (u.name.take 255)) = .entry l)
    (hacc : dictionaryGet (s.act (.accept fd script)).fdToClient fd = some s.conns.length) :
    ∃ conn, Uploading u (s.act (.accept fd script)) fd s.conns.length conn := by
  obtain ⟨rest, hrx', -, hfx', hi, hdisk, hf⟩ := Server.act_accept hs.mapInv hacc
  have hrecv : Receiving u ((s.act (.accept fd script)).ctx (newConn fd rest)) := by
    refine ⟨.inl rfl, fun h => absurd rfl h, ?_, fun h => ?_, hfx'.trans hfx, ?_,
      Nat.two_pow_pos 64⟩
    · have hrx'' : ((s.act (.accept fd script)).ctx (newConn fd rest)).script.rx = u.rx :=
        hrx'.trans hrx
      rw [hrx'']
      exact .start u.delivers
    · rcases h with ⟨h, -⟩ | ⟨h, -⟩ <;> cases h
    · have hd : ((s.act (.accept fd script)).ctx (newConn fd rest)).disk = s.disk := hdisk
      rw [hd]
      exact hopen
  exact ⟨_, hs.mapInv.act _, hacc, hi, rfl, hf,
    ⟨connOk_stable.new fd rest _, handleOk_stable.new fd rest _, .inr ⟨rfl, hf, rfl, hrecv⟩⟩,
    hrecv⟩

/-- In every run the answer, if there is one, is the verdict. -/
theorem Uploading.replies (h : Uploading u s fd i conn) (acts : List Action) {conn' : Conn}
    (hi : (s.run acts).conns[i]? = some conn') :
    conn'.replies = [] ∨ ∃ v, u.Verdict v ∧ conn'.replies = [v] := by
  have hway := (onTheWay_lasting u).run h.map acts h.found hi h.hand.onTheWay
  rcases hway.progress with hj | ⟨hr, -⟩
  · exact .inr hj.verdict
  · exact .inl hr

/-- Enough READ events bring an answer. -/
theorem Uploading.answered (h : Uploading u s fd i conn) {acts : List Action} {conn' : Conn}
    (hi : (s.run acts).conns[i]? = some conn') (hf : (s.run acts).fault = false)
    (ha : ∀ a ∈ acts, a.breaks fd = false)
    (hn : pending (s.ctx conn) + 1 ≤ acts.countP (Action.reads fd)) :
    ∃ v, u.Verdict v ∧ conn'.replies = [v] := by
  obtain ⟨conn'', hi', hj | hle⟩ := h.run ha hf
  · obtain rfl := Option.some.inj (hi.symm.trans hi')
    exact hj.verdict
  · exact absurd hn (by omega)

/-- READ events alone bring an answer, also when it is the last thing the process does. -/
theorem Uploading.answered_alone (h : Uploading u s fd i conn) :
    ∃ acts conn', (s.run acts).conns[i]? = some conn' ∧
      ∃ v, u.Verdict v ∧ conn'.replies = [v] := by
  generalize hn : pending (s.ctx conn) = n
  induction n using Nat.strong_induction_on generalizing s conn with
  | _ n ih =>
  have hnf : ¬ s.fault = true := by rw [h.fault]; simp
  have hact : s.act (.event fd .onRead) = s.put i (handleReadEvent (s.ctx conn)) := by
    have heq := handleEvent_eq .onRead h.get h.found
    exact (if_neg hnf).trans heq
  have hi' : (s.act (.event fd .onRead)).conns[i]? = some (handleReadEvent (s.ctx conn)).toConn := by
    rw [hact]
    exact Server.put_conns_self _ h.found
  obtain ⟨hhand, hj | hlt⟩ := h.hand.handleReadEvent h.live h.fault h.receiving.state
  · exact ⟨[.event fd .onRead], _, hi', hj.verdict⟩
  · rcases hhand.progress with hj | ⟨hlive, hf, -, hrecv⟩
    · exact ⟨[.event fd .onRead], _, hi', hj.verdict⟩
    · have hmap := h.map.act (.event fd .onRead)
      have hget := h.map.get_turn (Server.act_turn h.map (.event fd .onRead)) h.get hi' hlive
      have hup : Uploading u (s.act (.event fd .onRead)) fd i
          (handleReadEvent (s.ctx conn)).toConn := by
        rw [hact] at hmap hget hi' ⊢
        exact ⟨hmap, hget, hi', hlive, hf, hhand, hrecv⟩
      have hpend : pending ((s.act (.event fd .onRead)).ctx
          (handleReadEvent (s.ctx conn)).toConn) < n := by
        rw [← hn, hact]
        exact hlt
      obtain ⟨acts, conn', hi'', hv⟩ := ih _ hpend hup rfl
      exact ⟨.event fd .onRead :: acts, conn', hi'', hv⟩

end Runs

/-- **The verdict is right on every schedule exactly if no surplus byte comes late.** -/
theorem verdict_right_iff {s : Server} (hs : Reachable s) {fd : Int} {script : Script}
    (u : PutStream) (hrx : script.rx = u.rx) (hfx : script.fx = [])
    (hopen : ∃ l, s.disk.tree.resolve (s.disk.tree.path (u.name.take 255)) = .entry l)
    (hacc : dictionaryGet (s.act (.accept fd script)).fdToClient fd = some s.conns.length) :
    Decides (s.act (.accept fd script)) fd s.conns.length u.rightVerdict ↔
      u.body.length ≤ u.size ∨ u.ExtraReady := by
  obtain ⟨conn, hup⟩ := Uploading.accept (u := u) hs hrx hfx hopen hacc
  constructor
  · intro h
    obtain ⟨acts, conn', hi, v, hv, hr⟩ := hup.answered_alone
    have hright := h.only acts conn' hi
    rw [hr] at hright
    have heq : v = u.rightVerdict := by simpa using hright
    exact (u.verdict_right v hv).mp heq
  · intro hcond
    refine ⟨fun acts conn' hi => ?_, pending ((s.act (.accept fd script)).ctx conn) + 1,
      fun acts conn' hi hf ha hn => ?_⟩
    · rcases hup.replies acts hi with hr | ⟨v, hv, hr⟩
      · exact .inl hr
      · rw [(u.verdict_right v hv).mpr hcond] at hr
        exact .inr hr
    · obtain ⟨v, -, hr⟩ := hup.answered hi hf ha hn
      rw [hr]
      simp

/-- An upload of one byte to `x` that comes in one piece. -/
def oneByteUpload : PutStream where
  name := ascii "x"
  size := 1
  body := [65]
  rx := pushBack (putLine (ascii "x") ++ sizeBytes 1 ++ [65]) [.eof]
  name_text := by decide
  line_length := by decide
  size_lt := by decide
  delivers := (Delivers.eof []).pushBack (putLine (ascii "x") ++ sizeBytes 1 ++ [65])

theorem verdict_right_oneByteUpload :
    Decides ((Server.boot bareDisk).act (.accept 5 ⟨oneByteUpload.rx, [], [], []⟩)) 5 0 (.ok, []) :=
  (verdict_right_iff ⟨bareDisk, [], bareDisk_fresh, rfl⟩ oneByteUpload rfl rfl
    ⟨(1, ascii "x"), by decide⟩ (by decide)).mpr (.inl (by decide))

/-- An empty upload to `x` with a surplus byte that comes after a pause. -/
def lateByteUpload : PutStream where
  name := ascii "x"
  size := 0
  body := [65]
  rx := pushBack (putLine (ascii "x") ++ sizeBytes 0) [.eagain, .data 65 [], .eof]
  name_text := by decide
  line_length := by decide
  size_lt := by decide
  delivers := (Delivers.eagain (.data 65 [] (.eof []))).pushBack (putLine (ascii "x") ++ sizeBytes 0)

theorem not_verdict_lateByteUpload :
    ¬ ∀ s, Reachable s → ∀ (fd : Int) (script : Script) (u : PutStream), script.rx = u.rx →
      script.fx = [] →
      (∃ l, s.disk.tree.resolve (s.disk.tree.path (u.name.take 255)) = .entry l) →
      dictionaryGet (s.act (.accept fd script)).fdToClient fd = some s.conns.length →
      Decides (s.act (.accept fd script)) fd s.conns.length u.rightVerdict := by
  intro h
  have hdec := h (Server.boot bareDisk) ⟨bareDisk, [], bareDisk_fresh, rfl⟩ 5
    ⟨lateByteUpload.rx, [], [], []⟩ lateByteUpload rfl rfl ⟨(1, ascii "x"), by decide⟩ (by decide)
  have hrun : ∃ conn ∈ (((Server.boot bareDisk).act (.accept 5 ⟨lateByteUpload.rx, [], [], []⟩)).run
      [.event 5 .onRead, .event 5 .onRead]).conns[0]?, conn.replies = [(.ok, [])] := by
    decide +kernel
  obtain ⟨conn, hi, hr⟩ := hrun
  have hright : lateByteUpload.rightVerdict = (.error, errBadFileSize) := if_neg (by decide)
  have honly := hdec.only _ conn hi
  rw [hr, hright] at honly
  simp at honly

end FileServer
