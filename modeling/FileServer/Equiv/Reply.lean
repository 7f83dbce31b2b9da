/-
  Replies: what a connection has sent, byte by byte.

  `ReplyOk` ties the bytes that the socket took to the state: nothing while a request
  is received; then the chosen status line, cut where the write was cut; for GET and
  LIST behind it the size field and the payload.  In `STATE_DONE` the whole reply is
  sent, and before it less than that.
-/
import FileServer.Equiv.Upload
import FileServer.Equiv.Names

namespace FileServer

/-! ### The invariant -/

/-- `OK\n`. -/
def okLine : List Byte := responseText .ok []

@[simp] theorem responseText_ok (msg : List Byte) : responseText .ok msg = okLine := rfl

/-- The texts of chosen replies. -/
def textOf (rs : List (Status × List Byte)) : List Byte :=
  rs.flatMap fun r => responseText r.1 r.2

/-- The replies before the last: none, except that LIST may still fail behind its OK. -/
def Earlier (k : Client) (st : Status) (rs : List (Status × List Byte)) : Prop :=
  rs = [] ∨ k.requestVerb = .list ∧ st = .error ∧ ∃ m, rs = [(.ok, m)]

/-- The state in which a status line is sent. -/
def lineState : Status → ConnState
  | .ok => .sendOk
  | .error => .sendError

/-- A status line is being sent. -/
structure LineOk (c : Conn) (rs : List (Status × List Byte)) (st : Status) (msg : List Byte) :
    Prop where
  replies : c.replies = rs ++ [(st, msg)]
  state : c.client.state = lineState st
  buf : c.client.simpleResponseBuf = responseText st msg
  len : c.client.simpleResponseLen = (responseText st msg).length
  lt : c.client.simpleResponseSent < (responseText st msg).length
  sent : c.sent = textOf rs ++ (responseText st msg).take c.client.simpleResponseSent
  earlier : Earlier c.client st rs

/-- A status line, the last thing to send, is sent. -/
structure LineDone (c : Conn) (rs : List (Status × List Byte)) (st : Status) (msg : List Byte) :
    Prop where
  replies : c.replies = rs ++ [(st, msg)]
  sent : c.sent = textOf rs ++ responseText st msg
  earlier : Earlier c.client st rs
  last : st = .ok → c.client.requestVerb ≠ .get ∧ c.client.requestVerb ≠ .list

/-- The status line is sent, and the request has a payload. -/
structure PayloadOk (c : Conn) (v : Verb) (payload : List Byte) : Prop where
  verb : c.client.requestVerb = v
  replies : ∃ msg, c.replies = [(.ok, msg)]
  sent : c.sent = okLine ++ payload

/-- What a connection has sent in each state. -/
structure ReplyOk (c : Conn) : Prop where
  silent : c.client.state = .recvHeader ∨ c.client.state = .recvPutSize ∨
    c.client.state = .recvPutData → c.sent = [] ∧ c.replies = []
  line : c.client.state = .sendOk ∨ c.client.state = .sendError → ∃ rs st msg, LineOk c rs st msg
  start : c.client.state = .sendOk ∧ c.client.requestVerb = .get ∨ c.client.state = .sendGetSize →
    c.client.bytesTransferred = 0
  size : c.client.state = .sendGetSize →
    PayloadOk c .get ((sizeBytes c.client.fileSize).take c.client.simpleResponseSent) ∧
    (c.client.simpleResponseLen = 0 ∧ c.client.simpleResponseSent = 0 ∨
      c.client.simpleResponseLen = 8 ∧ c.client.simpleResponseSent < 8 ∧
        c.client.simpleResponseBuf.take 8 = sizeBytes c.client.fileSize)
  data : c.client.state = .sendGetData → c.client.bytesTransferred ≤ c.client.fileSize ∧
    ∃ bytes, PayloadOk c .get (sizeBytes c.client.fileSize ++ bytes) ∧
      bytes.length = c.client.bytesTransferred
  list : c.client.state = .sendListData → ∃ buffer, (c.freed = false → c.client.listBuf = some buffer) ∧
    c.client.listLen = buffer.length ∧ c.client.listSent < c.client.listLen ∧
    PayloadOk c .list (buffer.take c.client.listSent)
  done : c.client.state = .done → (∃ rs st msg, LineDone c rs st msg) ∨
    (∃ bytes, PayloadOk c .get (sizeBytes c.client.fileSize ++ bytes) ∧
      bytes.length = c.client.fileSize) ∨
    ∃ buffer, PayloadOk c .list buffer

/-! ### Steps -/

/-- The logs tell the same about the reply. -/
structure SameReply (a b : Conn) : Prop where
  sent : b.sent = a.sent
  replies : b.replies = a.replies

namespace SameReply

theorem refl (a : Conn) : SameReply a a := ⟨rfl, rfl⟩

theorem trans {a b c : Conn} (h : SameReply a b) (h' : SameReply b c) : SameReply a c :=
  ⟨h'.sent.trans h.sent, h'.replies.trans h.replies⟩

theorem of_log {a b : Conn} {l : List Call} (h : b.log = a.log ++ l)
    (hsent : l.flatMap Call.sent = []) (hreply : l.filterMap Call.reply? = []) :
    SameReply a b :=
  ⟨by rw [Conn.sent_of_log h, hsent, List.append_nil],
    by rw [Conn.replies_of_log h, hreply, List.append_nil]⟩

end SameReply

section Steps

variable {c c' : Ctx} {st : Status} {msg : List Byte}

theorem sysWrite_sent {bs : List Byte} {n : Nat} (h : (c.sysWrite bs).1 = .wrote n) :
    (c.sysWrite bs).2.sent = c.sent ++ bs.take n := by
  rw [Conn.sent_of_log (Ctx.sysWrite_log c bs), h]
  simp [Call.sent]

theorem sysWrite_replies (bs : List Byte) : (c.sysWrite bs).2.replies = c.replies := by
  rw [Conn.replies_of_log (Ctx.sysWrite_log c bs)]
  exact List.append_nil _

/-- A write that takes nothing. -/
theorem sysWrite_sameReply {bs : List Byte} (h : ∀ n, (c.sysWrite bs).1 ≠ .wrote n) :
    SameReply c.toConn (c.sysWrite bs).2.toConn := by
  refine ⟨?_, sysWrite_replies bs⟩
  rw [Conn.sent_of_log (Ctx.sysWrite_log c bs)]
  cases hw : (c.sysWrite bs).1 with
  | wrote n => exact absurd hw (h n)
  | _ => exact List.append_nil _

theorem sysPread_length {h : Handle} {count off : Nat} {bs : List Byte}
    (hp : (c.sysPread h count off).1 = some bs) : bs.length ≤ count := by
  have hle : ∀ k, c.disk.pread h k off = some bs → bs.length ≤ k := by
    intro k hk
    cases h with
    | file l gen =>
      obtain rfl := Option.some.inj hk
      exact List.length_take_le ..
    | dir d => cases hk
  unfold Ctx.sysPread at hp
  dsimp only at hp
  split at hp
  · exact hle _ hp
  · exact (hle _ hp).trans (Nat.min_le_right _ _)
  · cases hp

/-- The next `n` bytes of what is left. -/
theorem take_append_take_drop (text : List Byte) (k m n : Nat) (h : n ≤ m) :
    text.take k ++ ((text.drop k).take m).take n = text.take (k + n) := by
  rw [List.take_take, Nat.min_eq_left h, List.take_add]

/-- Bytes of a status line are sent. -/
theorem LineOk.sentLine {rs : List (Status × List Byte)} {n : Nat}
    (h : LineOk c.toConn rs st msg) (hw : (writeLine c).1 = .wrote n) :
    c.client.simpleResponseSent + n ≤ (responseText st msg).length ∧
      (FileServer.sentLine c n).sent
        = textOf rs ++ (responseText st msg).take (c.client.simpleResponseSent + n) ∧
      (FileServer.sentLine c n).replies = rs ++ [(st, msg)] := by
  have hle := Ctx.sysWrite_le c _ hw
  have hrest : simpleResponseRest c.client = ((responseText st msg).drop
      c.client.simpleResponseSent).take
        ((responseText st msg).length - c.client.simpleResponseSent) := by
    rw [simpleResponseRest, h.buf, h.len]
  have hlt := h.lt
  have hlen : n ≤ (responseText st msg).length - c.client.simpleResponseSent := by
    rw [hrest, List.length_take, List.length_drop] at hle
    omega
  refine ⟨by omega, ?_, ?_⟩
  · refine (sysWrite_sent hw).trans ?_
    rw [h.sent, hrest, List.append_assoc, take_append_take_drop _ _ _ _ hlen]
  · exact (sysWrite_replies _).trans h.replies

/-- Every reply fits its buffer. -/
theorem Choose.length_lt (h : Choose c c' st msg) : (responseText st msg).length < maxHeaderLen := by
  cases h <;> decide

/-- When a reply is chosen, nothing has been sent, but for the OK line of a LIST whose buffer cannot
be built. -/
theorem Choose.sameReply (h : Choose c c' st msg) (hr : ReplyOk c.toConn) :
    ∃ rs, c'.replies = rs ∧ c'.sent = textOf rs ∧ Earlier c'.client st rs ∧
      (rs = [] ∨
        c.client.state = .sendOk ∧ ∃ n, (buildListBuffer (sentLine c n)).1 = none) := by
  -- the log gets calls that neither send nor choose a reply
  have hsame : ∀ {d : Ctx} {l : List Call}, d.log = c.log ++ l →
      l.flatMap Call.sent = [] → l.filterMap Call.reply? = [] →
      (c.client.state = .recvHeader ∨ c.client.state = .recvPutSize ∨
        c.client.state = .recvPutData) →
      ∃ rs, d.replies = rs ∧ d.sent = textOf rs ∧ Earlier d.client st rs ∧
        (rs = [] ∨
          c.client.state = .sendOk ∧ ∃ n, (buildListBuffer (sentLine c n)).1 = none) :=
    fun hlog hsent hreply hs => by
      obtain ⟨h1, h2⟩ := hr.silent hs
      have h' := SameReply.of_log hlog hsent hreply
      exact ⟨[], h'.replies.trans h2, h'.sent.trans h1, .inl rfl, .inl rfl⟩
  cases h with
  | bad hl => exact hsame (l := [_]) rfl rfl rfl (.inl hl.state)
  | tooLong hs => exact hsame (l := []) (List.append_nil _).symm rfl rfl (.inl hs)
  | list hl => exact hsame (l := [_]) rfl rfl rfl (.inl hl.state)
  | deleteAbsent hl => exact hsame (l := [_]) rfl rfl rfl (.inl hl.state)
  | deleteFailed hl =>
    exact hsame (l := [.read _, .unlink _ _]) (List.append_assoc ..) rfl rfl (.inl hl.state)
  | deleted hl =>
    exact hsame (l := [.read _, .unlink _ _])
      ((removeFileFromList_log _ _).trans (List.append_assoc ..)) rfl rfl (.inl hl.state)
  | getMissing hl =>
    exact hsame (l := [.read _, .openRead _ _]) (List.append_assoc ..) rfl rfl (.inl hl.state)
  | getFailed hl =>
    exact hsame (l := [.read _, .openRead _ _]) (List.append_assoc ..) rfl rfl (.inl hl.state)
  | getOpened hl =>
    exact hsame (l := [.read _, .openRead _ _]) (List.append_assoc ..) rfl rfl (.inl hl.state)
  | sizeCut hs => exact hsame (l := [_]) rfl rfl rfl (.inr (.inl hs))
  | openFailed hs => exact hsame (l := [_]) rfl rfl rfl (.inr (.inl hs))
  | bodyCut hs => exact hsame (l := [_]) rfl rfl rfl (.inr (.inr hs))
  | noFile hs => exact hsame (l := [_]) rfl rfl rfl (.inr (.inr hs))
  | bodyFailed hs => exact hsame (l := [_]) rfl rfl rfl (.inr (.inr hs))
  | extraByte hs => exact hsame (l := [_]) rfl rfl rfl (.inr (.inr hs))
  | accepted hs => exact hsame (acceptUpload_log c) rfl rfl (.inr (.inr hs))
  | @listNoMemory n hs hv hn hb =>
    obtain ⟨rs, st', msg', hline⟩ := hr.line (.inl hs)
    have hst : st' = .ok := by
      have := hline.state.symm.trans hs
      cases st' <;> first | rfl | cases this
    subst hst
    have hrs : rs = [] := hline.earlier.resolve_right fun h => by cases h.2.1
    subst hrs
    obtain ⟨-, hsent, hreplies⟩ := hline.sentLine hn.write
    have hall := hn.all
    rw [hline.len] at hall
    rw [hall, List.take_length] at hsent
    have hcalls : SameReply (sentLine c n).toConn (buildListBuffer (sentLine c n)).2.toConn :=
      .of_log (l := []) (by simp) rfl rfl
    refine ⟨_, hcalls.replies.trans hreplies, hcalls.sent.trans (hsent.trans ?_),
      .inr ⟨?_, rfl, msg', rfl⟩, .inr ⟨hs, n, hb⟩⟩
    · simp [textOf]
    · rw [buildListBuffer_client]; exact hv

/-- Before the OK line no reply was chosen. -/
theorem Choose.replies_nil (h : Choose c c' st msg) (hr : ReplyOk c.toConn)
    (hs : c.client.state ≠ .sendOk) : c'.replies = [] := by
  obtain ⟨rs, hreplies, -, -, hrs⟩ := h.sameReply hr
  rw [hreplies]
  exact hrs.resolve_right fun h => hs h.1

theorem fillResponse_replyOk {rs : List (Status × List Byte)}
    (hlen : (responseText st msg).length < maxHeaderLen) (hreplies : c.replies = rs)
    (hsent : c.sent = textOf rs) (he : Earlier c.client st rs)
    (hstart : st = .ok → c.client.requestVerb = .get → c.client.bytesTransferred = 0) :
    ReplyOk (fillResponse c st msg).toConn := by
  have hlog : (fillResponse c st msg).log = c.log ++ [.reply st msg] := rfl
  have hstate : (fillResponse c st msg).client.state = lineState st := by cases st <;> rfl
  have hpos : 0 < (responseText st msg).length := by cases st <;> simp [responseText, ascii]
  have hline : LineOk (fillResponse c st msg).toConn rs st msg := by
    refine ⟨?_, hstate, ?_, ?_, hpos, ?_, he⟩
    · rw [Conn.replies_of_log hlog, hreplies]; rfl
    · exact List.take_of_length_le (by omega)
    · exact if_neg (by omega)
    · rw [Conn.sent_of_log hlog, hsent]
      simp [Call.sent, fillResponse]
  obtain ⟨h1, h2, h3, h4⟩ := (fillResponse_sending c st msg).ne
  refine ⟨fun h => ?_, fun _ => ⟨rs, st, msg, hline⟩, fun h => ?_, fun h => ?_, fun h => ?_,
    fun h => ?_, fun h => absurd h h4⟩
  · rcases h with h | h | h
    · exact absurd h h1
    · exact absurd h h2
    · exact absurd h h3
  · rw [hstate] at h
    cases st with
    | ok => exact hstart rfl (h.resolve_right (by simp [lineState])).2
    | error => simp [lineState] at h
  all_goals rw [hstate] at h; cases st <;> cases h

/-- Everything that the invariant looks at is the same. -/
theorem ReplyOk.congr {a b : Conn} (hr : ReplyOk a) (hsame : SameReply a b)
    (hk : b.client = { a.client with fileFd := b.client.fileFd, listBuf := b.client.listBuf })
    (hlist : b.freed = false → a.freed = false ∧ b.client.listBuf = a.client.listBuf) :
    ReplyOk b := by
  have hpay : ∀ {v payload}, PayloadOk a v payload → PayloadOk b v payload := fun h =>
    ⟨by rw [hk]; exact h.verb, by rw [hsame.replies]; exact h.replies, hsame.sent.trans h.sent⟩
  refine ⟨fun h => ?_, fun h => ?_, fun h => ?_, fun h => ?_, fun h => ?_, fun h => ?_,
    fun h => ?_⟩
  all_goals rw [hk] at h
  · rw [hsame.sent, hsame.replies]
    exact hr.silent h
  · obtain ⟨rs, st, msg, h1, h2, h3, h4, h5, h6, h7⟩ := hr.line h
    refine ⟨rs, st, msg, hsame.replies.trans h1, ?_, ?_, ?_, ?_, ?_, ?_⟩ <;> rw [hk]
    · exact h2
    · exact h3
    · exact h4
    · exact h5
    · exact hsame.sent.trans h6
    · exact h7
  · rw [hk]
    exact hr.start h
  · obtain ⟨h1, h2⟩ := hr.size h
    rw [hk]
    exact ⟨hpay h1, h2⟩
  · obtain ⟨h1, bytes, h2, h3⟩ := hr.data h
    rw [hk]
    exact ⟨h1, bytes, hpay h2, h3⟩
  · obtain ⟨buffer, h1, h2, h3, h4⟩ := hr.list h
    refine ⟨buffer, fun hf => ?_, ?_, ?_, ?_⟩
    · rw [(hlist hf).2]
      exact h1 (hlist hf).1
    all_goals rw [hk]
    · exact h2
    · exact h3
    · exact hpay h4
  · rcases hr.done h with ⟨rs, st, msg, h1, h2, h3, h4⟩ | ⟨bytes, h1, h2⟩ | ⟨buffer, h1⟩
    · refine .inl ⟨rs, st, msg, hsame.replies.trans h1, hsame.sent.trans h2, ?_, ?_⟩ <;> rw [hk]
      · exact h3
      · exact h4
    · refine .inr (.inl ⟨bytes, ?_, ?_⟩) <;> rw [hk]
      · exact hpay h1
      · exact h2
    · exact .inr (.inr ⟨buffer, hpay h1⟩)

theorem ReplyOk.close (hr : ReplyOk c.toConn) : ReplyOk (closeAndCleanup c).toConn :=
  hr.congr ⟨closeAndCleanup_sent c, closeAndCleanup_replies c⟩ (closeAndCleanup_client c)
    fun hf => by cases hf

/-- A connection that is receiving its request has not replied. -/
theorem ReplyOk.of_receiving {a : Conn} (h : a.sent = [] ∧ a.replies = [])
    (hs : a.client.state = .recvHeader ∨ a.client.state = .recvPutSize ∨
      a.client.state = .recvPutData) : ReplyOk a := by
  refine ⟨fun _ => h, fun h => ?_, fun h => ?_, fun h => ?_, fun h => ?_, fun h => ?_, fun h => ?_⟩
  all_goals rcases hs with hs | hs | hs <;> simp [hs] at h

/-- A connection in the middle of its payload. -/
theorem ReplyOk.of_size {a : Conn} (hs : a.client.state = .sendGetSize)
    (h : PayloadOk a .get ((sizeBytes a.client.fileSize).take a.client.simpleResponseSent))
    (hbuf : a.client.simpleResponseLen = 0 ∧ a.client.simpleResponseSent = 0 ∨
      a.client.simpleResponseLen = 8 ∧ a.client.simpleResponseSent < 8 ∧
        a.client.simpleResponseBuf.take 8 = sizeBytes a.client.fileSize)
    (h0 : a.client.bytesTransferred = 0) : ReplyOk a := by
  refine ⟨fun h => ?_, fun h => ?_, fun _ => h0, fun _ => ⟨h, hbuf⟩, fun h => ?_, fun h => ?_,
    fun h => ?_⟩
  all_goals simp [hs] at h

theorem ReplyOk.of_data {a : Conn} (hs : a.client.state = .sendGetData)
    (hle : a.client.bytesTransferred ≤ a.client.fileSize) {bytes : List Byte}
    (h : PayloadOk a .get (sizeBytes a.client.fileSize ++ bytes))
    (hlen : bytes.length = a.client.bytesTransferred) : ReplyOk a := by
  refine ⟨fun h => ?_, fun h => ?_, fun h => ?_, fun h => ?_, fun _ => ⟨hle, bytes, h, hlen⟩,
    fun h => ?_, fun h => ?_⟩
  all_goals simp [hs] at h

theorem ReplyOk.of_list {a : Conn} (hs : a.client.state = .sendListData) {b : List Byte}
    (hbuf : a.client.listBuf = some b) (hlen : a.client.listLen = b.length)
    (hlt : a.client.listSent < a.client.listLen)
    (h : PayloadOk a .list (b.take a.client.listSent)) : ReplyOk a := by
  refine ⟨fun h => ?_, fun h => ?_, fun h => ?_, fun h => ?_, fun h => ?_,
    fun _ => ⟨b, fun _ => hbuf, hlen, hlt, h⟩, fun h => ?_⟩
  all_goals simp [hs] at h

theorem ReplyOk.of_done {a : Conn} (hs : a.client.state = .done)
    (h : (∃ rs st msg, LineDone a rs st msg) ∨
      (∃ bytes, PayloadOk a .get (sizeBytes a.client.fileSize ++ bytes) ∧
        bytes.length = a.client.fileSize) ∨ ∃ buffer, PayloadOk a .list buffer) : ReplyOk a := by
  refine ⟨fun h => ?_, fun h => ?_, fun h => ?_, fun h => ?_, fun h => ?_, fun h => ?_, fun _ => h⟩
  all_goals simp [hs] at h

/-- The OK line of a GET or a LIST is sent. -/
theorem ReplyOk.okLine_sent {n : Nat} {v : Verb} (hr : ReplyOk c.toConn)
    (hs : c.client.state = .sendOk) (hv : c.client.requestVerb = v) (hn : LineSent c n) :
    PayloadOk (sentLine c n).toConn v [] := by
  obtain ⟨rs, st, msg, hline⟩ := hr.line (.inl hs)
  have hst : st = .ok := by
    have := hline.state.symm.trans hs
    cases st <;> first | rfl | cases this
  subst hst
  obtain rfl : rs = [] := hline.earlier.resolve_right fun h => by cases h.2.1
  obtain ⟨-, hsent, hreplies⟩ := hline.sentLine hn.write
  have hall := hn.all
  rw [hline.len] at hall
  rw [hall, List.take_length] at hsent
  exact ⟨hv, ⟨msg, hreplies⟩, hsent.trans (List.append_nil _).symm⟩

/-- The size field with `n` more bytes of it sent. -/
theorem ReplyOk.sizeSent {n : Nat} (hr : ReplyOk c.toConn) (hs : c.client.state = .sendGetSize)
    (hl : c.client.simpleResponseLen ≠ 0) (hw : (writeLine c).1 = .wrote n) :
    c.client.simpleResponseLen = 8 ∧ c.client.simpleResponseSent + n ≤ 8 ∧
      c.client.simpleResponseBuf.take 8 = sizeBytes c.client.fileSize ∧
      PayloadOk (sentLine c n).toConn .get
        ((sizeBytes c.client.fileSize).take (c.client.simpleResponseSent + n)) := by
  obtain ⟨hpay, hbuf⟩ := hr.size hs
  obtain ⟨hlen, hlt, hbuf⟩ := hbuf.resolve_left fun h => hl h.1
  have hle := Ctx.sysWrite_le c _ hw
  have hrest : simpleResponseRest c.client
      = ((sizeBytes c.client.fileSize).drop c.client.simpleResponseSent).take
        (8 - c.client.simpleResponseSent) := by
    rw [simpleResponseRest, hlen, ← hbuf, List.drop_take, List.take_take, Nat.min_self]
  have hn : n ≤ 8 - c.client.simpleResponseSent := by
    rw [hrest, List.length_take] at hle
    omega
  refine ⟨hlen, by omega, hbuf, hpay.verb, ?_, ?_⟩
  · obtain ⟨msg, hmsg⟩ := hpay.replies
    exact ⟨msg, (sysWrite_replies _).trans hmsg⟩
  · refine (sysWrite_sent hw).trans ?_
    rw [hpay.sent, hrest, List.append_assoc, take_append_take_drop _ _ _ _ hn]

/-- File bytes with `n` more of them sent. -/
theorem ReplyOk.dataSent {n : Nat} {f : Handle} {bs : List Byte} (hr : ReplyOk c.toConn)
    (hs : c.client.state = .sendGetData) (hp : (readData c f).1 = some bs)
    (hw : ((readData c f).2.sysWrite bs).1 = .wrote n) :
    ∃ bytes, PayloadOk c.toConn .get (sizeBytes c.client.fileSize ++ bytes) ∧
      bytes.length = c.client.bytesTransferred ∧
      c.client.bytesTransferred + n ≤ c.client.fileSize ∧
      PayloadOk ((readData c f).2.sysWrite bs).2.toConn .get
        (sizeBytes c.client.fileSize ++ (bytes ++ bs.take n)) := by
  obtain ⟨hle, bytes, hpay, hlen⟩ := hr.data hs
  have hn := Ctx.sysWrite_le _ _ hw
  have hbs := sysPread_length hp
  rw [dataRoom] at hbs
  refine ⟨bytes, hpay, hlen, by omega, hpay.verb, ?_, ?_⟩
  · obtain ⟨msg, hmsg⟩ := hpay.replies
    exact ⟨msg, (sysWrite_replies _).trans hmsg⟩
  · refine (sysWrite_sent hw).trans ?_
    rw [show (readData c f).2.sent = c.sent from rfl, hpay.sent]
    simp only [List.append_assoc]

/-- The LIST payload with `n` more bytes of it sent. -/
theorem ReplyOk.listSent {n : Nat} (hr : ReplyOk c.toConn) (hc : c.freed = false)
    (hs : c.client.state = .sendListData) (hw : (writeList c).1 = .wrote n) :
    ∃ buffer, c.client.listBuf = some buffer ∧ c.client.listLen = buffer.length ∧
      c.client.listSent + n ≤ c.client.listLen ∧
      PayloadOk (sentList c n).toConn .list (buffer.take (c.client.listSent + n)) := by
  obtain ⟨buffer, hbuf, hlen, hlt, hpay⟩ := hr.list hs
  have hle := Ctx.sysWrite_le c _ hw
  have hrest : listRest c.client
      = (buffer.drop c.client.listSent).take (buffer.length - c.client.listSent) := by
    rw [listRest, hbuf hc, hlen]; rfl
  have hn : n ≤ buffer.length - c.client.listSent := by
    rw [hrest, List.length_take] at hle
    omega
  refine ⟨buffer, hbuf hc, hlen, by omega, hpay.verb, ?_, ?_⟩
  · obtain ⟨msg, hmsg⟩ := hpay.replies
    exact ⟨msg, (sysWrite_replies _).trans hmsg⟩
  · refine (sysWrite_sent hw).trans ?_
    rw [hpay.sent, hrest, List.append_assoc, take_append_take_drop _ _ _ _ hn]

/-- What only changes a log by calls that are neither sends nor replies keeps a payload. -/
theorem PayloadOk.congr {a b : Conn} {v : Verb} {payload : List Byte} (h : PayloadOk a v payload)
    (hsame : SameReply a b) (hv : b.client.requestVerb = a.client.requestVerb) :
    PayloadOk b v payload :=
  ⟨hv.trans h.verb, by rw [hsame.replies]; exact h.replies, hsame.sent.trans h.sent⟩

theorem Send.replyOk (h : Send c c') (hc : c.freed = false) (hr : ReplyOk c.toConn) :
    ReplyOk c'.toConn := by
  have hmod : ∀ {a b : Conn}, b.log = a.log ++ [.modify .write] → SameReply a b := fun h =>
    .of_log h rfl rfl
  cases h with
  | @linePart n hs hw hne =>
    obtain ⟨rs, st, msg, hline⟩ := hr.line hs
    obtain ⟨hle, hsent, hreplies⟩ := hline.sentLine hw
    have hsame : SameReply (sentLine c n).toConn ((sentLine c n).modifyEventLoop .write).toConn :=
      hmod rfl
    have hs' : ((sentLine c n).modifyEventLoop .write).client.state = lineState st := hline.state
    refine ⟨fun h => ?_, fun _ => ⟨rs, st, msg, ?_⟩, fun h => ?_, fun h => ?_, fun h => ?_,
      fun h => ?_, fun h => ?_⟩
    · rw [hs'] at h
      cases st <;> simp [lineState] at h
    · refine ⟨hsame.replies.trans hreplies, hs', hline.buf, hline.len, ?_,
        hsame.sent.trans hsent, hline.earlier⟩
      rw [hline.len] at hne
      exact lt_of_le_of_ne hle hne
    · exact hr.start h
    all_goals rw [hs'] at h; cases st <;> cases h
  | @lineGet n hs hv hn =>
    exact .of_size rfl ((hr.okLine_sent hs hv hn).congr (hmod rfl) rfl) (.inl ⟨rfl, rfl⟩)
      (hr.start (.inl ⟨hs, hv⟩))
  | @lineList n buffer hs hv hn hb =>
    have hsame : SameReply (sentLine c n).toConn (((buildListBuffer (sentLine c n)).2.setClient
        fun k => { k with
          listBuf := some buffer
          listLen := buffer.length
          listSent := 0
          state := .sendListData }).modifyEventLoop .write).toConn := hmod (by simp)
    refine ReplyOk.of_list (b := buffer) rfl rfl rfl ?_
      ((hr.okLine_sent hs hv hn).congr hsame ?_)
    · change 0 < buffer.length
      obtain ⟨ws, -, rfl⟩ := buildListBuffer_eq_some hb
      rw [List.length_append, length_sizeBytes]
      omega
    · rw [Ctx.modifyEventLoop_client, Ctx.setClient_client, buildListBuffer_client]
  | loadSize hs hl =>
    obtain ⟨hpay, hbuf⟩ := hr.size hs
    rw [loadGetSize_of_zero hl]
    obtain ⟨-, h0⟩ := hbuf.resolve_right fun h => by rw [hl] at h; cases h.1
    rw [h0] at hpay
    refine .of_size hs (hpay.congr ⟨rfl, rfl⟩ rfl) (.inr ⟨rfl, by simp, ?_⟩) (hr.start (.inr hs))
    rw [Ctx.setClient_client]
    simp [copyAt]
  | @sizePart n hs hl hw hne =>
    obtain ⟨hlen, hle, hbuf, hpay⟩ := hr.sizeSent hs hl hw
    rw [hlen] at hne
    exact .of_size hs hpay (.inr ⟨hlen, lt_of_le_of_ne hle hne, hbuf⟩) (hr.start (.inr hs))
  | @sizeAll n hs hl hn =>
    obtain ⟨hlen, hle, hbuf, hpay⟩ := hr.sizeSent hs hl hn.write
    have hall := hn.all
    rw [hlen] at hall
    rw [hall, List.take_of_length_le (by simp), ← List.append_nil (sizeBytes _)] at hpay
    have h0 := hr.start (.inr hs)
    exact .of_data rfl (h0.le.trans (Nat.zero_le _)) (hpay.congr (hmod rfl) rfl) h0.symm
  | @data f bs n hs hlen hh hp hne hw =>
    obtain ⟨bytes, -, hblen, hle, hpay⟩ := hr.dataSent hs hp hw
    refine .of_data hs hle (hpay.congr ⟨rfl, rfl⟩ rfl) ?_
    rw [List.length_append, List.length_take, hblen, Nat.min_eq_left (Ctx.sysWrite_le _ _ hw)]
    rfl
  | @listPart n hs hw hne =>
    obtain ⟨buffer, hbuf, hlen, hle, hpay⟩ := hr.listSent hc hs hw
    exact .of_list hs hbuf hlen (lt_of_le_of_ne hle hne) hpay

theorem Choose.start (h : Choose c c' st msg) (hu : UploadOk c.toConn) (hst : st = .ok)
    (hv : c'.client.requestVerb = .get) : c'.client.bytesTransferred = 0 := by
  cases h with
  | getOpened => rfl
  | list hl => cases hv
  | deleted hl => rw [removeFileFromList_client] at hv; cases hv
  | accepted hs =>
    rw [acceptUpload_client] at hv
    cases hv.symm.trans (hu.data hs).2.2.1
  | _ => cases hst

/-- What is sent when a connection is closed. -/
theorem Close.replyOk (h : Close c c') (hc : c.freed = false) (hr : ReplyOk c.toConn) :
    ReplyOk c'.toConn := by
  have herr : ∀ {bs : List Byte}, (c.sysWrite bs).1 = .err →
      ReplyOk (c.sysWrite bs).2.toConn := fun hw =>
    hr.congr (sysWrite_sameReply fun n => by rw [hw]; simp) rfl fun hf => ⟨hf, rfl⟩
  cases h with
  | header hs =>
    exact hr.congr (.of_log (Ctx.sysRead_log c 1) rfl rfl) rfl fun hf => ⟨hf, rfl⟩
  | line hs hw => exact herr hw
  | size hs hl hw => exact herr hw
  | noFile => exact hr
  | pread => exact hr.congr ⟨rfl, rfl⟩ rfl fun hf => ⟨hf, rfl⟩
  | @data f bs hs hlen hh hp hne hw =>
    have hread : ReplyOk (readData c f).2.toConn := hr.congr ⟨rfl, rfl⟩ rfl fun hf => ⟨hf, rfl⟩
    exact hread.congr (sysWrite_sameReply fun n => by rw [hw]; simp) rfl fun hf => ⟨hf, rfl⟩
  | list hs hw => exact herr hw
  | @replied n hs hn =>
    obtain ⟨rs, st, msg, hline⟩ := hr.line (hs.elim .inr fun h => .inl h.1)
    obtain ⟨-, hsent, hreplies⟩ := hline.sentLine hn.write
    have hall := hn.all
    rw [hline.len] at hall
    rw [hall, List.take_length] at hsent
    refine .of_done rfl (.inl ⟨rs, st, msg, hreplies, hsent, hline.earlier, fun hst => ?_⟩)
    subst hst
    exact (hs.resolve_left fun h => by cases hline.state.symm.trans h).2
  | got hs hlen =>
    obtain ⟨-, bytes, hpay, hblen⟩ := hr.data hs
    exact .of_done rfl (.inr (.inl ⟨bytes, hpay.congr ⟨rfl, rfl⟩ rfl, hblen.trans hlen⟩))
  | @listed n hs hw hall =>
    obtain ⟨buffer, -, hlen, -, hpay⟩ := hr.listSent hc hs hw
    rw [hall, hlen, List.take_length] at hpay
    exact .of_done rfl (.inr (.inr ⟨buffer, hpay.congr ⟨rfl, rfl⟩ rfl⟩))

theorem ReplyOk.step (hu : UploadOk c.toConn) (hc : c.freed = false) (hr : ReplyOk c.toConn)
    (h : Step c c') : ReplyOk c'.toConn := by
  -- while receiving, nothing is sent
  have hrecv : ∀ {d : Ctx} {l : List Call}, d.log = c.log ++ l →
      l.flatMap Call.sent = [] → l.filterMap Call.reply? = [] →
      (c.client.state = .recvHeader ∨ c.client.state = .recvPutSize ∨
        c.client.state = .recvPutData) →
      (d.client.state = .recvHeader ∨ d.client.state = .recvPutSize ∨
        d.client.state = .recvPutData) → ReplyOk d.toConn :=
    fun hlog hsent hreply hs hs' => by
      obtain ⟨h1, h2⟩ := hr.silent hs
      have h' := SameReply.of_log hlog hsent hreply
      exact .of_receiving ⟨h'.sent.trans h1, h'.replies.trans h2⟩ hs'
  cases h with
  | quiet h =>
    cases h with
    | @read n => exact hr.congr (.of_log (Ctx.sysRead_log c n) rfl rfl) rfl fun hf => ⟨hf, rfl⟩
    | write hw =>
      exact hr.congr (sysWrite_sameReply fun n => by rw [hw]; simp) rfl fun hf => ⟨hf, rfl⟩
    | pread => exact hr.congr ⟨rfl, rfl⟩ rfl fun hf => ⟨hf, rfl⟩
  | receive h =>
    cases h with
    | header hf hs => exact hrecv (l := [_]) rfl rfl rfl (.inl hs) (.inl hs)
    | size hs => exact hrecv (l := [_]) rfl rfl rfl (.inr (.inl hs)) (.inr (.inl hs))
    | body hs => exact hrecv (l := [_]) rfl rfl rfl (.inr (.inr hs)) (.inr (.inr hs))
  | begin h =>
    cases h with
    | put hl =>
      exact hrecv (l := [.read _, .modify _]) (List.append_assoc ..) rfl rfl (.inl hl.state)
        (.inr (.inl rfl))
    | upload hs => exact hrecv (l := [_]) rfl rfl rfl (.inr (.inl hs)) (.inr (.inr rfl))
  | choose h =>
    obtain ⟨rs, hreplies, hsent, he, -⟩ := h.sameReply hr
    exact fillResponse_replyOk h.length_lt hreplies hsent he (h.start hu)
  | send h => exact h.replyOk hc hr
  | close h => exact (h.replyOk hc hr).close
  | fault hl => exact hrecv (l := [_]) rfl rfl rfl (.inl hl.state) (.inl hl.state)

/-- A connection in `STATE_DONE` is destroyed. -/
theorem Step.done (h : Step c c') (hc : c.client.state ≠ .done) (hs : c'.client.state = .done) :
    c'.freed = true := by
  cases h with
  | quiet h => cases h <;> exact absurd hs hc
  | receive h => cases h <;> exact absurd hs hc
  | begin h => cases h <;> cases hs
  | choose h => exact absurd hs (fillResponse_sending _ _ _).ne.2.2.2
  | send h => exact absurd hs h.sending.ne.2.2.2
  | close h => rfl
  | fault hl => exact absurd hs hc

end Steps

/-- The invariants of a connection that do not mention the disk. -/
structure ConnOk (c : Ctx) : Prop where
  request : RequestOk c
  upload : UploadOk c.toConn
  reply : ReplyOk c.toConn
  done : c.client.state = .done → c.freed = true

theorem connOk_stable : Stable ConnOk where
  new := fun fd script g =>
    ⟨requestOk_stable.new fd script g, (uploadOk_stable.new fd script g).2,
      .of_receiving ⟨rfl, rfl⟩ (.inl rfl), fun h => (by cases h)⟩
  step := fun c c' hc h hstep =>
    ⟨requestOk_stable.step c c' hc h.request hstep, h.upload.step h.request hstep,
      h.reply.step h.upload hc hstep,
      hstep.done fun hs => by cases hc.symm.trans (h.done hs)⟩
  close := fun c hc h =>
    ⟨requestOk_stable.close c hc h.request, h.upload.close, h.reply.close, fun _ => rfl⟩
  globals := fun c g hg hf h =>
    ⟨requestOk_stable.globals c g hg hf h.request, h.upload, h.reply, h.done⟩

end FileServer
