/-
  Replies are byte exact.

  Whatever the socket took of a connection's reply is a prefix of one text, and the
  whole of it in `STATE_DONE` (`sent_prefix`).  For GET the text holds the size and
  the bytes of the opened file, as long as that is not modified (`FileSent`); for
  LIST the names that the list held when the OK line was finished (`NamesSent`).
-/
import FileServer.Equiv.Allocation
import Mathlib.Data.List.Induction

namespace FileServer

/-! ### The text of a reply -/

/-- The bytes that an open file holds; a directory has none. -/
def Disk.bytes (k : Disk) : Handle → List Byte
  | .file l gen => k.content l gen
  | .dir _ => []

/-- The file that a call opened for reading. -/
def Call.download? : Call → Option Handle
  | .openRead _ h => h
  | _ => none

/-- The file that a GET opened. -/
def Conn.download (c : Conn) : Option Handle := c.log.findSome? Call.download?

namespace Server

/-- The bytes that connection `i` has sent. -/
def sent (s : Server) (i : ConnId) : List Byte := s.conns[i]?.elim [] Conn.sent

/-- The file that connection `i` has opened for reading. -/
def download (s : Server) (i : ConnId) : Option Handle := s.conns[i]?.bind Conn.download

end Server

/-- When connection `i` opened the file `f`, it had `size` as its `st_size` and held `bytes`. -/
def OpenedAs (s : Server) (acts : List Action) (i : ConnId) (f : Handle) (size : Nat)
    (bytes : List Byte) : Prop :=
  ∀ pre a post, acts = pre ++ a :: post → (s.run pre).download i = none →
    (s.run (pre ++ [a])).download i = some f →
      (s.run (pre ++ [a])).disk.size f = size ∧ (s.run (pre ++ [a])).disk.bytes f = bytes

/-- When connection `i` finished its OK line, the list held the names `ws`. -/
def ListedAs (s : Server) (acts : List Action) (i : ConnId) (ws : List Path) : Prop :=
  ∀ pre a post, acts = pre ++ a :: post → ¬ okLine <+: (s.run pre).sent i →
    okLine <+: (s.run (pre ++ [a])).sent i → Names (s.run (pre ++ [a])).serverFiles ws

/-- The reply of a connection `i` that ended as `c`. -/
inductive IsReply (s : Server) (acts : List Action) (i : ConnId) (c : Conn) : List Byte → Prop
  /-- No reply was chosen yet. -/
  | none (h : c.replies = []) : IsReply s acts i c []
  | rejected {msg : List Byte} (h : c.replies = [(.error, msg)]) :
      IsReply s acts i c (ascii "ERROR\n" ++ msg ++ ascii "\n")
  | done {msg : List Byte} (h : c.replies = [(.ok, msg)])
      (hv : c.client.requestVerb = .put ∨ c.client.requestVerb = .delete) :
      IsReply s acts i c (ascii "OK\n")
  | file {msg : List Byte} {f : Handle} {size : Nat} {bytes : List Byte}
      (h : c.replies = [(.ok, msg)]) (hv : c.client.requestVerb = .get)
      (hf : c.download = some f) (hopen : OpenedAs s acts i f size bytes) :
      IsReply s acts i c (ascii "OK\n" ++ sizeBytes size ++ bytes)
  | names {msg : List Byte} {ws : List Path} (h : c.replies = [(.ok, msg)])
      (hv : c.client.requestVerb = .list) (hlist : ListedAs s acts i ws) :
      IsReply s acts i c (ascii "OK\n" ++ sizeBytes (joinNames ws).length ++ joinNames ws)

/-- No action changes a file while connection `i` has it open for GET. -/
def Unmodified (s : Server) (acts : List Action) (i : ConnId) : Prop :=
  ∀ pre a post, acts = pre ++ a :: post → ∀ conn f, (s.run pre).conns[i]? = some conn →
    conn.freed = false → conn.client.requestVerb = .get → conn.client.fileFd = some f →
      (s.run (pre ++ [a])).disk.bytes f = (s.run pre).disk.bytes f

/-- A list of one element ends with it. -/
theorem singleton_eq_concat {α : Type} {x y : α} {l : List α} (h : [x] = l ++ [y]) :
    l = [] ∧ y = x := by
  cases l with
  | nil => exact ⟨rfl, (List.singleton_inj.mp h).symm⟩
  | cons z l => simp at h

/-! ### Files -/

/-- The OK line was chosen, and nothing else. -/
def Accepts (c : Conn) (v : Verb) : Prop :=
  c.client.requestVerb = v ∧ ∃ msg, c.replies = [(.ok, msg)]

/-- What a GET has sent of a file of size `n` that holds `bs`. -/
structure FileSent (c : Conn) (f : Handle) (n : Nat) (bs : List Byte) : Prop where
  accepts : Accepts c .get
  state : c.client.state = .sendOk ∨ c.client.state = .sendGetSize ∨
    c.client.state = .sendGetData ∨ c.client.state = .done
  download : c.download = some f
  fd : c.freed = false → c.client.fileFd = some f
  size : c.client.fileSize = n
  data : c.client.state = .sendGetData →
    c.sent = okLine ++ (sizeBytes n ++ bs.take c.client.bytesTransferred)
  done : c.client.state = .done → c.sent = okLine ++ (sizeBytes n ++ bs)

theorem Disk.length_bytes_le (k : Disk) (f : Handle) : (k.bytes f).length ≤ k.size f := by
  cases f with
  | file l gen => exact Nat.le_refl _
  | dir d => exact Nat.zero_le _

/-- A size depends on the bytes and on the directories only. -/
theorem Disk.size_congr {k k' : Disk} {f : Handle} (ht : k'.tree = k.tree)
    (hb : k'.bytes f = k.bytes f) : k'.size f = k.size f := by
  cases f with
  | file l gen => exact congrArg List.length hb
  | dir d => rw [Disk.size, Disk.size, ht]

theorem Conn.download_mono {a b : Conn} (h : a.log <+: b.log) {f : Handle}
    (ha : a.download = some f) : b.download = some f := by
  obtain ⟨l, hl⟩ := h
  rw [Conn.download] at ha ⊢
  rw [← hl, List.findSome?_append, ha]
  rfl

section Steps

variable {c c' : Ctx} {st : Status} {msg : List Byte}

/-- A connection that sends its reply leaves the list alone. -/
theorem Step.serverFiles_of_sending (h : Step c c') (hs : c.client.state.Sending) :
    c'.serverFiles = c.serverFiles := by
  obtain ⟨h1, h2, h3, -⟩ := hs.ne
  -- the list changes only where a reply is chosen, and while sending that is for LIST only
  rcases h.serverFiles with heq | ⟨d, st, msg, hd, rfl⟩
  · exact heq
  · rcases hd.state with h' | h' | h' | ⟨hok, hv⟩
    · exact absurd h' h1
    · exact absurd h' h2
    · exact absurd h' h3
    · cases hd with
      | deleted hl => exact absurd hl.state h1
      | accepted hs' => exact absurd hs' h3
      | listNoMemory => exact buildListBuffer_serverFiles _
      | _ => rfl

/-- A connection that sends its reply and uploads nothing leaves the disk alone. -/
theorem Step.disk_of_sending (h : Step c c') (hs : c.client.state.Sending)
    (hv : c.client.requestVerb ≠ .put) : c'.disk = c.disk := by
  obtain ⟨h1, h2, h3, -⟩ := hs.ne
  cases h with
  | quiet h => cases h <;> rfl
  | receive h =>
    cases h with
    | header _ hs' => exact absurd hs' h1
    | size hs' => exact absurd hs' h2
    | body hs' => exact absurd hs' h3
  | begin h =>
    cases h with
    | put hl => exact absurd hl.state h1
    | upload hs' => exact absurd hs' h2
  | choose h =>
    cases h with
    | openFailed hs' => exact absurd hs' h2
    | bodyFailed hs' => exact absurd hs' h3
    | deleteFailed hl => exact absurd hl.state h1
    | deleted hl => exact absurd hl.state h1
    | accepted hs' => exact absurd hs' h3
    | listNoMemory => exact buildListBuffer_disk _
    | _ => rfl
  | send h => exact h.disk
  | @close k h =>
    rw [closeAndCleanup_disk, if_neg, h.disk]
    exact fun hu => hv (h.sameHeader.verb.symm.trans hu.1)
  | fault hl => exact absurd hl.state h1

variable {f : Handle} {n : Nat} {bs : List Byte}

/-- Any prefix of the contents that the state allows is a prefix of the reply. -/
theorem FileSent.prefix_of {c : Conn} (h : FileSent c f n bs) (hr : ReplyOk c) :
    c.sent <+: okLine ++ (sizeBytes n ++ bs) := by
  obtain ⟨hv, msg, hmsg⟩ := h.accepts
  rcases h.state with hs | hs | hs | hs
  · obtain ⟨rs, st, msg', hline⟩ := hr.line (.inl hs)
    have hlast := hline.replies
    rw [hmsg] at hlast
    obtain ⟨rfl, heq⟩ := singleton_eq_concat hlast
    obtain ⟨rfl, rfl⟩ := Prod.mk.inj heq
    rw [hline.sent]
    exact (List.take_prefix ..).trans (List.prefix_append ..)
  · rw [(hr.size hs).1.sent, h.size]
    exact List.prefix_append_right_inj _ |>.mpr
      ((List.take_prefix ..).trans (List.prefix_append ..))
  · rw [h.data hs]
    exact List.prefix_append_right_inj _ |>.mpr (List.prefix_append_right_inj _ |>.mpr
      (List.take_prefix ..))
  · exact ⟨[], by rw [List.append_nil, h.done hs]⟩

/-- The log tells the same about the reply, and the record is the same but for its pointers. -/
theorem FileSent.congr {a b : Conn} (h : FileSent a f n bs) (hlog : a.log <+: b.log)
    (hsame : SameReply a b)
    (hk : b.client = { a.client with fileFd := b.client.fileFd, listBuf := b.client.listBuf })
    (hfd : b.freed = false → a.freed = false ∧ b.client.fileFd = a.client.fileFd) :
    FileSent b f n bs where
  accepts := by
    obtain ⟨hv, msg, hmsg⟩ := h.accepts
    exact ⟨by rw [hk]; exact hv, msg, hsame.replies.trans hmsg⟩
  state := by rw [hk]; exact h.state
  download := Conn.download_mono hlog h.download
  fd := fun hf => by rw [(hfd hf).2]; exact h.fd (hfd hf).1
  size := by rw [hk]; exact h.size
  data := fun hs => by
    rw [hk] at hs ⊢
    exact hsame.sent.trans (h.data hs)
  done := fun hs => by
    rw [hk] at hs
    exact hsame.sent.trans (h.done hs)

/-- The next state, once what is sent there is known. -/
theorem FileSent.enter {a b : Conn} (h : FileSent a f n bs) (hlog : a.log <+: b.log)
    (hreplies : b.replies = a.replies) (hv : b.client.requestVerb = a.client.requestVerb)
    (hfd : b.client.fileFd = a.client.fileFd) (hf : b.freed = a.freed)
    (hsize : b.client.fileSize = a.client.fileSize)
    (hs : b.client.state = .sendOk ∨ b.client.state = .sendGetSize ∨
      b.client.state = .sendGetData ∨ b.client.state = .done)
    (hdata : b.client.state = .sendGetData →
      b.sent = okLine ++ (sizeBytes n ++ bs.take b.client.bytesTransferred))
    (hdone : b.client.state = .done → b.sent = okLine ++ (sizeBytes n ++ bs)) :
    FileSent b f n bs where
  accepts := by
    obtain ⟨hverb, msg, hmsg⟩ := h.accepts
    exact ⟨hv.trans hverb, msg, hreplies.trans hmsg⟩
  state := hs
  download := Conn.download_mono hlog h.download
  fd := fun hb => hfd.trans (h.fd (hf.symm.trans hb))
  size := hsize.trans h.size
  data := hdata
  done := hdone

/-- What is read of an unmodified file is the next part of it. -/
theorem readData_prefix {ds : List Byte} (hb : c.disk.bytes f = bs)
    (hp : (readData c f).1 = some ds) :
    ds <+: bs.drop c.client.bytesTransferred := by
  have hle : ∀ k off, c.disk.pread f k off = some ds → ds <+: bs.drop off := by
    intro k off hk
    cases f with
    | file l gen =>
      obtain rfl := Option.some.inj hk
      subst hb
      exact List.take_prefix ..
    | dir d => cases hk
  unfold readData Ctx.sysPread at hp
  dsimp only at hp
  split at hp
  · exact hle _ _ hp
  · exact hle _ _ hp
  · cases hp

theorem FileSent.send (h : FileSent c.toConn f n bs) (hr : ReplyOk c.toConn)
    (hc : c.freed = false) (hb : c.disk.bytes f = bs) (hstep : Send c c') :
    FileSent c'.toConn f n bs := by
  have hlog := (Step.send hstep).log
  have hreplies := hstep.replies
  cases hstep with
  | linePart hs =>
    have hok : c.client.state = .sendOk := by
      rcases h.state with h' | h' | h' | h' <;> rcases hs with hs | hs <;>
        first | exact h' | cases h'.symm.trans hs
    exact h.enter hlog hreplies rfl rfl rfl rfl (.inl hok) (fun hd => by cases hok.symm.trans hd)
      (fun hd => by cases hok.symm.trans hd)
  | lineGet =>
    exact h.enter hlog hreplies rfl rfl rfl rfl (.inr (.inl rfl)) (fun hd => (by cases hd))
      (fun hd => by cases hd)
  | lineList _ hv => cases hv.symm.trans h.accepts.1
  | loadSize hs hl =>
    rw [loadGetSize_of_zero hl]
    exact h.enter List.prefix_rfl rfl rfl rfl rfl rfl (.inr (.inl hs))
      (fun hd => by cases hs.symm.trans hd) (fun hd => by cases hs.symm.trans hd)
  | sizePart hs =>
    exact h.enter hlog hreplies rfl rfl rfl rfl (.inr (.inl hs))
      (fun hd => by cases hs.symm.trans hd) (fun hd => by cases hs.symm.trans hd)
  | @sizeAll k hs hl hn =>
    refine h.enter hlog hreplies rfl rfl rfl rfl (.inr (.inr (.inl rfl))) (fun _ => ?_)
      (fun hd => by cases hd)
    obtain ⟨hlen, -, -, hpay⟩ := hr.sizeSent hs hl hn.write
    have hall := hn.all
    rw [hlen] at hall
    have hsent : (((sentLine c k).setClient fun k =>
        { k with
          state := .sendGetData
          simpleResponseLen := 0
          simpleResponseSent := 0 }).modifyEventLoop .write).sent = (sentLine c k).sent :=
      (SameReply.of_log (l := [.modify .write]) rfl rfl rfl).sent
    rw [hsent, hpay.sent, hall, h.size, List.take_of_length_le (by simp)]
    change _ = okLine ++ (sizeBytes n ++ bs.take c.client.bytesTransferred)
    rw [hr.start (.inr hs), List.take_zero, List.append_nil]
  | @data g ds k hs hlen hh hp hne hw =>
    refine h.enter hlog hreplies rfl rfl rfl rfl (.inr (.inr (.inl hs))) (fun _ => ?_)
      (fun hd => by cases hs.symm.trans hd)
    obtain rfl := Option.some.inj (hh.symm.trans (h.fd hc))
    -- the socket took a part of what was read at `bytes_transferred`
    have hds : ds.take k = (bs.drop c.client.bytesTransferred).take k := by
      obtain ⟨rest, hrest⟩ := readData_prefix hb hp
      rw [← hrest, List.take_append_of_le_length (Ctx.sysWrite_le _ _ hw)]
    have hsent : (((readData c g).2.sysWrite ds).2.setClient fun x =>
        { x with bytesTransferred := x.bytesTransferred + k }).sent = c.sent ++ ds.take k :=
      sysWrite_sent hw
    rw [hsent, h.data hs, hds, List.append_assoc, List.append_assoc, ← List.take_add]
    rfl
  | listPart hs =>
    rcases h.state with h' | h' | h' | h' <;> cases h'.symm.trans hs

theorem FileSent.close (h : FileSent c.toConn f n bs)
    (hlen : bs.length ≤ n) (hstep : Close c c') : FileSent c'.toConn f n bs := by
  have hlog := hstep.log
  have herr : ∀ {ds : List Byte}, (c.sysWrite ds).1 = .err →
      FileSent (c.sysWrite ds).2.toConn f n bs := fun hw =>
    h.congr (List.prefix_append ..) (sysWrite_sameReply fun n => by rw [hw]; simp) rfl
      fun hf => ⟨hf, rfl⟩
  cases hstep with
  | header hs => rcases h.state with h' | h' | h' | h' <;> cases h'.symm.trans hs
  | line hs hw => exact herr hw
  | replied hs =>
    exfalso
    rcases hs with hs | ⟨-, hv, -⟩
    · rcases h.state with h' | h' | h' | h' <;> cases h'.symm.trans hs
    · exact hv h.accepts.1
  | size hs hl hw => exact herr hw
  | noFile => exact h
  | pread => exact h.congr List.prefix_rfl ⟨rfl, rfl⟩ rfl fun hf => ⟨hf, rfl⟩
  | @data g ds hs hlen' hh hp hne hw =>
    have hread : FileSent (readData c g).2.toConn f n bs :=
      h.congr List.prefix_rfl ⟨rfl, rfl⟩ rfl fun hf => ⟨hf, rfl⟩
    exact hread.congr (List.prefix_append ..) (sysWrite_sameReply fun n => by rw [hw]; simp) rfl
      fun hf => ⟨hf, rfl⟩
  | got hs hall =>
    refine h.enter hlog rfl rfl rfl rfl rfl (.inr (.inr (.inr rfl))) (fun hd => by cases hd)
      (fun _ => ?_)
    have hdata := h.data hs
    rw [hall, h.size, List.take_of_length_le hlen] at hdata
    exact hdata
  | list hs => rcases h.state with h' | h' | h' | h' <;> cases h'.symm.trans hs
  | listed hs => rcases h.state with h' | h' | h' | h' <;> cases h'.symm.trans hs

theorem FileSent.closeAndCleanup (h : FileSent c.toConn f n bs) :
    FileSent (closeAndCleanup c).toConn f n bs :=
  h.congr (by rw [closeAndCleanup_log]; exact List.prefix_append ..)
    ⟨closeAndCleanup_sent c, closeAndCleanup_replies c⟩ (closeAndCleanup_client c)
    fun hf => by cases hf

/-- A live connection that sends a file is in one of the sending states. -/
theorem FileSent.sending (h : FileSent c.toConn f n bs) (hd : c.client.state ≠ .done) :
    c.client.state.Sending := by
  rcases h.state with hs | hs | hs | hs
  · exact .inl hs
  · exact .inr (.inr (.inl hs))
  · exact .inr (.inr (.inr (.inl hs)))
  · exact absurd hs hd

/-- **A step of a download** sends the next bytes of the file, as long as it holds them. -/
theorem FileSent.step (h : FileSent c.toConn f n bs) (hr : ReplyOk c.toConn)
    (hc : c.freed = false) (hb : c.disk.bytes f = bs) (hlen : bs.length ≤ n) (hstep : Step c c') :
    FileSent c'.toConn f n bs := by
  have hno : ∀ {s : ConnState}, c.client.state = s → s ≠ .sendOk → s ≠ .sendGetSize →
      s ≠ .sendGetData → s ≠ .done → False := fun hs h1 h2 h3 h4 => by
    subst hs
    rcases h.state with h' | h' | h' | h'
    · exact h1 h'
    · exact h2 h'
    · exact h3 h'
    · exact h4 h'
  cases hstep with
  | quiet hq =>
    cases hq with
    | read =>
      exact h.congr (List.prefix_append ..) (.of_log (Ctx.sysRead_log c _) rfl rfl) rfl
        fun hf => ⟨hf, rfl⟩
    | write hw =>
      exact h.congr (List.prefix_append ..) (sysWrite_sameReply fun n => by rw [hw]; simp) rfl
        fun hf => ⟨hf, rfl⟩
    | pread => exact h.congr List.prefix_rfl ⟨rfl, rfl⟩ rfl fun hf => ⟨hf, rfl⟩
  | receive hq =>
    cases hq with
    | header _ hs => exact (hno hs (by simp) (by simp) (by simp) (by simp)).elim
    | size hs => exact (hno hs (by simp) (by simp) (by simp) (by simp)).elim
    | body hs => exact (hno hs (by simp) (by simp) (by simp) (by simp)).elim
  | begin hq =>
    cases hq with
    | put hl => exact (hno hl.state (by simp) (by simp) (by simp) (by simp)).elim
    | upload hs => exact (hno hs (by simp) (by simp) (by simp) (by simp)).elim
  | choose hq =>
    exfalso
    rcases hq.state with hs | hs | hs | ⟨-, hv⟩
    · exact hno hs (by simp) (by simp) (by simp) (by simp)
    · exact hno hs (by simp) (by simp) (by simp) (by simp)
    · exact hno hs (by simp) (by simp) (by simp) (by simp)
    · cases hv.symm.trans h.accepts.1
  | send hq => exact h.send hr hc hb hq
  | close hq => exact (h.close hlen hq).closeAndCleanup
  | fault hl => exact (hno hl.state (by simp) (by simp) (by simp) (by simp)).elim

theorem Conn.download_eq_none {c : Conn} (h : c.paths = []) : c.download = none := by
  refine List.findSome?_eq_none_iff.mpr fun x hx => ?_
  have hpath := List.filterMap_eq_nil_iff.mp h x hx
  cases x with
  | openRead p f => cases hpath
  | _ => rfl

/-- A connection that has no request has opened nothing. -/
theorem RequestOk.download {q : Request} (h : RequestOk c) (hl : LineRead c q) :
    c.download = none :=
  Conn.download_eq_none (h.noPaths (h.header hl.fault hl.state).1)

/-- A GET whose OK is chosen has its file open. -/
theorem Choose.fileSent (h : Choose c c' st msg) (hc : ConnOk c) (hst : st = .ok)
    (hv : c'.client.requestVerb = .get) (hreplies : c'.replies = []) :
    ∃ f, FileSent (fillResponse c' st msg).toConn f (c'.disk.size f) (c'.disk.bytes f) := by
  cases h with
  | @getOpened w f size hl ho hf =>
    refine ⟨f, ⟨rfl, [], ?_⟩, .inl rfl, ?_, fun _ => ho, ?_, fun h => (by cases h),
      fun h => (by cases h)⟩
    · rw [Conn.replies_of_log (l := [.reply .ok []]) rfl, hreplies]
      rfl
    · have hlog : (fillResponse (((openDownload (takeLine c (.get w))).2.sysFstat f).2.setClient
          fun k => { k with fileSize := size, bytesTransferred := 0 }) .ok []).log
            = c.log ++ [.read (c.sysRead 1).1, .openRead (takeLine c (.get w)).filepath
              (openDownload (takeLine c (.get w))).1, .reply .ok []] := by
        change c.log ++ [_] ++ [_] ++ [_] = _
        rw [List.append_assoc, List.append_assoc]
        rfl
      have hnone := hc.request.download hl
      rw [Conn.download] at hnone ⊢
      rw [hlog, List.findSome?_append, hnone, ho]
      rfl
    · change size = c.disk.size f
      unfold Ctx.sysFstat at hf
      dsimp only at hf
      split_ifs at hf
      exact (Option.some.inj hf).symm
  | list hl => cases hv
  | deleted hl => rw [removeFileFromList_client] at hv; cases hv
  | accepted hs =>
    rw [acceptUpload_client] at hv
    cases hv.symm.trans (hc.upload.data hs).2.2.1
  | _ => cases hst

/-- A reply is chosen once, and then the request is fixed. -/
theorem Step.replied (h : Step c c') (hc : ConnOk c) {v : Verb}
    (hv : c'.client.requestVerb = v) (hr : c'.replies = [(.ok, msg)]) :
    (c.client.requestVerb = v ∧ c.replies = [(.ok, msg)]) ∨
      ∃ d, Choose c d .ok msg ∧ c' = fillResponse d .ok msg ∧ d.client.requestVerb = v ∧
        d.replies = [] := by
  rcases h.replies with heq | ⟨d, st, m, hd, rfl⟩
  · have hcr := heq.symm.trans hr
    have hs : c.client.state ≠ .recvHeader := fun hs => by
      have := (hc.reply.silent (.inl hs)).2
      rw [this] at hcr
      cases hcr
    exact .inl ⟨(h.sameHeader hs).2.verb.symm.trans hv, hcr⟩
  · have hlog : (fillResponse d st m).replies = d.replies ++ [(st, m)] :=
      Conn.replies_of_log (l := [.reply st m]) rfl
    obtain ⟨hnil, heq⟩ := singleton_eq_concat (hr.symm.trans hlog)
    obtain ⟨rfl, rfl⟩ := Prod.mk.inj heq
    exact .inr ⟨d, hd, rfl, hv, hnil⟩

/-- After an event a GET with its OK has sent a part of the file as it is. -/
theorem Handled.fileSent (h : Handled c c') (hc : c.freed = false) (hok : ConnOk c)
    (hfile : Accepts c.toConn .get →
      ∃ f, FileSent c.toConn f (c.disk.size f) (c.disk.bytes f)) :
    Accepts c'.toConn .get → ∃ f, FileSent c'.toConn f (c'.disk.size f) (c'.disk.bytes f) := by
  have hrun := h.invariant (P := fun x => ConnOk x ∧ (Accepts x.toConn .get →
    ∃ f, FileSent x.toConn f (x.disk.size f) (x.disk.bytes f))) hc ⟨hok, hfile⟩ ?_ ?_
  · exact hrun.2
  · rintro x y hx ⟨h1, h3⟩ hxy
    refine ⟨connOk_stable.step x y hx h1 hxy, fun ⟨hv, msg, hmsg⟩ => ?_⟩
    rcases hxy.replied h1 hv hmsg with ⟨hv', hmsg'⟩ | ⟨d, hd, rfl, hv', hnil⟩
    · obtain ⟨f, hf⟩ := h3 ⟨hv', msg, hmsg'⟩
      have hs := hf.sending fun hs => by cases hx.symm.trans (h1.done hs)
      have hdisk := hxy.disk_of_sending hs (by rw [hv']; simp)
      rw [hdisk]
      exact ⟨f, hf.step h1.reply hx rfl (x.disk.length_bytes_le f) hxy⟩
    · exact hd.fileSent h1 rfl hv' hnil
  · rintro x hx ⟨h1, h3⟩
    refine ⟨connOk_stable.close x hx h1, fun ⟨hv, msg, hmsg⟩ => ?_⟩
    rw [closeAndCleanup_client] at hv
    rw [closeAndCleanup_replies] at hmsg
    obtain ⟨f, hf⟩ := h3 ⟨hv, msg, hmsg⟩
    have hdisk : (closeAndCleanup x).disk = x.disk := by
      rw [closeAndCleanup_disk, if_neg]
      exact fun hu => by cases hu.1.symm.trans hv
    rw [hdisk]
    exact ⟨f, hf.closeAndCleanup⟩

end Steps

/-! ### Status lines -/

/-- A connection without a reply has sent nothing. -/
theorem ReplyOk.sent_nil {c : Conn} (hr : ReplyOk c) (h : c.replies = []) :
    c.sent = [] ∧ c.client.state ≠ .done := by
  have hnil : ∀ {l : List (Status × List Byte)} {x : Status × List Byte},
      c.replies = l ++ [x] → False := fun h' => by simp [h] at h'
  have hpay : ∀ {v payload}, PayloadOk c v payload → False := fun hp => by
    obtain ⟨m, hm⟩ := hp.replies
    exact hnil (l := []) hm
  cases hs : c.client.state with
  | recvHeader => exact ⟨(hr.silent (.inl hs)).1, by simp⟩
  | recvPutSize => exact ⟨(hr.silent (.inr (.inl hs))).1, by simp⟩
  | recvPutData => exact ⟨(hr.silent (.inr (.inr hs))).1, by simp⟩
  | sendOk =>
    obtain ⟨rs, st, m, hline⟩ := hr.line (.inl hs)
    exact (hnil hline.replies).elim
  | sendError =>
    obtain ⟨rs, st, m, hline⟩ := hr.line (.inr hs)
    exact (hnil hline.replies).elim
  | sendGetSize => exact (hpay (hr.size hs).1).elim
  | sendGetData =>
    obtain ⟨-, _, hp, -⟩ := hr.data hs
    exact (hpay hp).elim
  | sendListData =>
    obtain ⟨_, -, -, -, hp⟩ := hr.list hs
    exact (hpay hp).elim
  | done =>
    rcases hr.done hs with ⟨rs, st, m, hline⟩ | ⟨_, hp, -⟩ | ⟨_, hp⟩
    · exact (hnil hline.replies).elim
    · exact (hpay hp).elim
    · exact (hpay hp).elim

/-- A reply that is only a status line. -/
theorem ReplyOk.line_prefix {c : Conn} (hr : ReplyOk c) {st : Status} {msg : List Byte}
    (h : c.replies = [(st, msg)])
    (hv : st = .ok → c.client.requestVerb ≠ .get ∧ c.client.requestVerb ≠ .list) :
    c.sent <+: responseText st msg ∧ (c.client.state = .done → c.sent = responseText st msg) := by
  have hlast : ∀ {l st' msg'}, c.replies = l ++ [(st', msg')] → l = [] ∧ st' = st ∧ msg' = msg :=
    fun h' => by
      rw [h] at h'
      obtain ⟨hl, heq⟩ := singleton_eq_concat h'
      exact ⟨hl, Prod.mk.inj heq⟩
  have hpay : ∀ {v payload}, PayloadOk c v payload → v = .get ∨ v = .list → False :=
    fun hp hvp => by
      obtain ⟨m, hm⟩ := hp.replies
      obtain ⟨-, hst, -⟩ := hlast (l := []) hm
      rcases hvp with rfl | rfl
      · exact (hv hst.symm).1 hp.verb
      · exact (hv hst.symm).2 hp.verb
  have hline : c.client.state = .sendOk ∨ c.client.state = .sendError →
      c.sent <+: responseText st msg := fun hs => by
    obtain ⟨rs, st', msg', hline⟩ := hr.line hs
    obtain ⟨rfl, rfl, rfl⟩ := hlast hline.replies
    rw [hline.sent]
    exact List.take_prefix ..
  have hdone : c.client.state = .done → c.sent = responseText st msg := fun hs => by
    rcases hr.done hs with ⟨rs, st', msg', hd⟩ | ⟨_, hp, -⟩ | ⟨_, hp⟩
    · obtain ⟨rfl, rfl, rfl⟩ := hlast hd.replies
      exact hd.sent
    · exact (hpay hp (.inl rfl)).elim
    · exact (hpay hp (.inr rfl)).elim
  refine ⟨?_, hdone⟩
  have hnil : c.sent = [] → c.sent <+: responseText st msg := fun h => by
    rw [h]; exact List.nil_prefix
  cases hs : c.client.state with
  | recvHeader => exact hnil (hr.silent (.inl hs)).1
  | recvPutSize => exact hnil (hr.silent (.inr (.inl hs))).1
  | recvPutData => exact hnil (hr.silent (.inr (.inr hs))).1
  | sendOk => exact hline (.inl hs)
  | sendError => exact hline (.inr hs)
  | sendGetSize => exact (hpay (hr.size hs).1 (.inl rfl)).elim
  | sendGetData =>
    obtain ⟨-, _, hp, -⟩ := hr.data hs
    exact (hpay hp (.inl rfl)).elim
  | sendListData =>
    obtain ⟨_, -, -, -, hp⟩ := hr.list hs
    exact (hpay hp (.inr rfl)).elim
  | done => exact (hdone hs).symm ▸ List.prefix_rfl

/-- No request sets the verb to `UNKNOWN`. -/
theorem verbOf_requestOf_ne (header : List Byte) : verbOf (requestOf header) ≠ .unknown := by
  unfold requestOf requestOfLine
  dsimp only
  split_ifs <;> exact fun h => by cases h

/-! ### Names -/

/-- What LIST sends behind its OK line. -/
def listPayload (ws : List Path) : List Byte := sizeBytes (joinNames ws).length ++ joinNames ws

theorem Names.unique {v : FssVector Path} {vs ws : List Path} (h : Names v vs)
    (h' : Names v ws) : vs = ws :=
  List.map_injective_iff.mpr (Option.some_injective _) (h.symm.trans h')

/-- What a LIST has sent of these names. -/
structure NamesSent (c : Conn) (ws : List Path) : Prop where
  accepts : Accepts c .list
  state : c.client.state = .sendOk ∨ c.client.state = .sendListData ∨ c.client.state = .done
  buf : c.freed = false → c.client.state = .sendListData → c.client.listBuf = some (listPayload ws)
  data : c.client.state = .sendListData →
    c.sent = okLine ++ (listPayload ws).take c.client.listSent
  done : c.client.state = .done → c.sent = okLine ++ listPayload ws

section Steps

variable {c c' : Ctx} {st : Status} {msg : List Byte} {ws : List Path}

/-- The OK line of a connection that has not finished it. -/
theorem Accepts.line {c : Conn} {v : Verb} (h : Accepts c v) (hr : ReplyOk c)
    (hs : c.client.state = .sendOk) :
    c.sent = okLine.take c.client.simpleResponseSent ∧
      c.client.simpleResponseSent < okLine.length := by
  obtain ⟨-, msg, hmsg⟩ := h
  obtain ⟨rs, st, msg', hline⟩ := hr.line (.inl hs)
  have hlast := hline.replies
  rw [hmsg] at hlast
  obtain ⟨rfl, heq⟩ := singleton_eq_concat hlast
  obtain ⟨rfl, rfl⟩ := Prod.mk.inj heq
  exact ⟨hline.sent, hline.lt⟩

theorem Accepts.not_okLine {c : Conn} {v : Verb} (h : Accepts c v) (hr : ReplyOk c)
    (hs : c.client.state = .sendOk) : ¬ okLine <+: c.sent := by
  obtain ⟨hline, hlt⟩ := h.line hr hs
  rw [hline]
  intro hpre
  have hle := hpre.length_le
  rw [List.length_take] at hle
  omega

theorem NamesSent.prefix_of {c : Conn} (h : NamesSent c ws) (hr : ReplyOk c) :
    c.sent <+: okLine ++ listPayload ws := by
  rcases h.state with hs | hs | hs
  · rw [(h.accepts.line hr hs).1]
    exact (List.take_prefix ..).trans (List.prefix_append ..)
  · rw [h.data hs]
    exact (List.prefix_append_right_inj _).mpr (List.take_prefix ..)
  · exact ⟨[], by rw [List.append_nil, h.done hs]⟩

/-- The log tells the same about the reply, and the record is the same but for its pointers. -/
theorem NamesSent.congr {a b : Conn} (h : NamesSent a ws) (hsame : SameReply a b)
    (hk : b.client = { a.client with fileFd := b.client.fileFd, listBuf := b.client.listBuf })
    (hbuf : b.freed = false → a.freed = false ∧ b.client.listBuf = a.client.listBuf) :
    NamesSent b ws where
  accepts := by
    obtain ⟨hv, msg, hmsg⟩ := h.accepts
    exact ⟨by rw [hk]; exact hv, msg, hsame.replies.trans hmsg⟩
  state := by rw [hk]; exact h.state
  buf := fun hf hs => by
    rw [hk] at hs
    rw [(hbuf hf).2]
    exact h.buf (hbuf hf).1 hs
  data := fun hs => by
    rw [hk] at hs ⊢
    exact hsame.sent.trans (h.data hs)
  done := fun hs => by
    rw [hk] at hs
    exact hsame.sent.trans (h.done hs)

theorem NamesSent.closeAndCleanup (h : NamesSent c.toConn ws) :
    NamesSent (closeAndCleanup c).toConn ws :=
  h.congr ⟨closeAndCleanup_sent c, closeAndCleanup_replies c⟩ (closeAndCleanup_client c)
    fun hf => by cases hf

theorem NamesSent.send (h : NamesSent c.toConn ws) (hr : ReplyOk c.toConn) (hc : c.freed = false)
    (hnames : c.client.state = .sendOk → ∀ vs, Names c.serverFiles vs → vs = ws)
    (hstep : Send c c') : NamesSent c'.toConn ws := by
  have hacc : Accepts c'.toConn .list := by
    obtain ⟨hv, msg, hmsg⟩ := h.accepts
    exact ⟨hstep.sameHeader.verb.trans hv, msg, hstep.replies.trans hmsg⟩
  cases hstep with
  | linePart hs =>
    have hok : c.client.state = .sendOk := by
      rcases h.state with h' | h' | h' <;> rcases hs with hs | hs <;>
        first | exact h' | cases h'.symm.trans hs
    exact ⟨hacc, .inl hok, fun _ hd => (by cases hok.symm.trans hd),
      fun hd => (by cases hok.symm.trans hd), fun hd => (by cases hok.symm.trans hd)⟩
  | lineGet _ hv => cases hv.symm.trans h.accepts.1
  | @lineList n buffer hs hv hn hb =>
    obtain ⟨vs, hvs, rfl⟩ := buildListBuffer_eq_some hb
    obtain rfl := hnames hs vs hvs
    refine ⟨hacc, .inr (.inl rfl), fun _ _ => rfl, fun _ => ?_, fun hd => by cases hd⟩
    have hsent : (((buildListBuffer (sentLine c n)).2.setClient fun k =>
        { k with
          listBuf := some (listPayload vs)
          listLen := (listPayload vs).length
          listSent := 0
          state := .sendListData }).modifyEventLoop .write).sent = (sentLine c n).sent :=
      (SameReply.of_log (l := [.modify .write]) (by simp) rfl rfl).sent
    exact hsent.trans (hr.okLine_sent hs hv hn).sent
  | loadSize hs => rcases h.state with h' | h' | h' <;> cases h'.symm.trans hs
  | sizePart hs => rcases h.state with h' | h' | h' <;> cases h'.symm.trans hs
  | sizeAll hs => rcases h.state with h' | h' | h' <;> cases h'.symm.trans hs
  | data hs => rcases h.state with h' | h' | h' <;> cases h'.symm.trans hs
  | @listPart n hs hw =>
    obtain ⟨buffer, hbuf, -, -, hpay⟩ := hr.listSent hc hs hw
    obtain rfl := Option.some.inj (hbuf.symm.trans (h.buf hc hs))
    exact ⟨hacc, .inr (.inl hs), fun _ _ => hbuf, fun _ => hpay.sent,
      fun hd => (by cases hs.symm.trans hd)⟩

theorem NamesSent.close (h : NamesSent c.toConn ws) (hr : ReplyOk c.toConn) (hc : c.freed = false)
    (hstep : Close c c') : NamesSent c'.toConn ws := by
  have herr : ∀ {ds : List Byte}, (c.sysWrite ds).1 = .err →
      NamesSent (c.sysWrite ds).2.toConn ws := fun hw =>
    h.congr (sysWrite_sameReply fun n => by rw [hw]; simp) rfl fun hf => ⟨hf, rfl⟩
  have hacc : Accepts c'.toConn .list := by
    obtain ⟨hv, msg, hmsg⟩ := h.accepts
    exact ⟨hstep.sameHeader.verb.trans hv, msg, hstep.replies.trans hmsg⟩
  cases hstep with
  | header hs => rcases h.state with h' | h' | h' <;> cases h'.symm.trans hs
  | line hs hw => exact herr hw
  | replied hs =>
    exfalso
    rcases hs with hs | ⟨-, -, hv⟩
    · rcases h.state with h' | h' | h' <;> cases h'.symm.trans hs
    · exact hv h.accepts.1
  | size hs => rcases h.state with h' | h' | h' <;> cases h'.symm.trans hs
  | noFile hs => rcases h.state with h' | h' | h' <;> cases h'.symm.trans hs
  | pread hs => rcases h.state with h' | h' | h' <;> cases h'.symm.trans hs
  | data hs => rcases h.state with h' | h' | h' <;> cases h'.symm.trans hs
  | got hs => rcases h.state with h' | h' | h' <;> cases h'.symm.trans hs
  | list hs hw => exact herr hw
  | @listed n hs hw hall =>
    obtain ⟨buffer, hbuf, hlen, -, hpay⟩ := hr.listSent hc hs hw
    obtain rfl := Option.some.inj (hbuf.symm.trans (h.buf hc hs))
    rw [hall, hlen, List.take_length] at hpay
    exact ⟨hacc, .inr (.inr rfl), fun _ hd => (by cases hd), fun hd => (by cases hd),
      fun _ => hpay.sent⟩

/-- A reply that is chosen is one more. -/
theorem Choose.replies_ne (h : Choose c c' st msg)
    (hone : (fillResponse c' st msg).replies = c.replies) : False := by
  obtain ⟨l, hl⟩ := h.log
  rw [Conn.replies_of_log (l := [.reply st msg]) rfl, Conn.replies_of_log hl.symm] at hone
  have hlen := congrArg List.length hone
  rw [List.length_append, List.length_append] at hlen
  change c.replies.length + _ + 1 = c.replies.length at hlen
  omega

/-- A LIST that finishes its OK line has built its buffer, of a list without `NULL`. -/
theorem Step.names_of_sendOk (h : Step c c') (hs : c.client.state = .sendOk)
    (hv : c.client.requestVerb = .list) (hs' : c'.client.state ≠ .sendOk)
    (hone : c'.replies = c.replies) : ∃ ws, Names c.serverFiles ws := by
  have hno : ∀ {s : ConnState}, c.client.state = s → s ≠ .sendOk → False := fun h' hne =>
    hne (h'.symm.trans hs)
  cases h with
  | quiet hq => exact absurd (by cases hq <;> exact hs) hs'
  | receive hq =>
    cases hq with
    | header _ h' => exact (hno h' (by simp)).elim
    | size h' => exact (hno h' (by simp)).elim
    | body h' => exact (hno h' (by simp)).elim
  | begin hq =>
    cases hq with
    | put hl => exact (hno hl.state (by simp)).elim
    | upload h' => exact (hno h' (by simp)).elim
  | choose hq => exact (hq.replies_ne hone).elim
  | send hq =>
    cases hq with
    | linePart => exact absurd hs hs'
    | lineGet _ hv' => cases hv'.symm.trans hv
    | lineList _ _ _ hb =>
      obtain ⟨ws, hws, -⟩ := buildListBuffer_eq_some hb
      exact ⟨ws, hws⟩
    | loadSize h' => exact (hno h' (by simp)).elim
    | sizePart h' => exact (hno h' (by simp)).elim
    | sizeAll h' => exact (hno h' (by simp)).elim
    | data h' => exact (hno h' (by simp)).elim
    | listPart h' => exact (hno h' (by simp)).elim
  | close hk =>
    rw [closeAndCleanup_client] at hs'
    cases hk with
    | header h' => exact (hno h' (by simp)).elim
    | line => exact absurd hs hs'
    | replied h' =>
      rcases h' with h' | ⟨-, -, h'⟩
      · exact (hno h' (by simp)).elim
      · exact absurd hv h'
    | size h' => exact (hno h' (by simp)).elim
    | noFile h' => exact (hno h' (by simp)).elim
    | pread h' => exact (hno h' (by simp)).elim
    | data h' => exact (hno h' (by simp)).elim
    | got h' => exact (hno h' (by simp)).elim
    | list h' => exact (hno h' (by simp)).elim
    | listed h' => exact (hno h' (by simp)).elim
  | fault hl => exact (hno hl.state (by simp)).elim

/-- **A step of a listing** sends the next bytes of the names that the list held when the OK line
was finished. -/
theorem NamesSent.step (h : NamesSent c.toConn ws) (hr : ReplyOk c.toConn) (hc : c.freed = false)
    (hnames : c.client.state = .sendOk → ∀ vs, Names c.serverFiles vs → vs = ws)
    (hone : c'.replies = c.replies) (hstep : Step c c') : NamesSent c'.toConn ws := by
  have hno : ∀ {s : ConnState}, c.client.state = s → s ≠ .sendOk → s ≠ .sendListData →
      s ≠ .done → False := fun hs h1 h2 h3 => by
    subst hs
    rcases h.state with h' | h' | h'
    · exact h1 h'
    · exact h2 h'
    · exact h3 h'
  cases hstep with
  | quiet hq =>
    cases hq with
    | read => exact h.congr (.of_log (Ctx.sysRead_log c _) rfl rfl) rfl fun hf => ⟨hf, rfl⟩
    | write hw =>
      exact h.congr (sysWrite_sameReply fun n => by rw [hw]; simp) rfl fun hf => ⟨hf, rfl⟩
    | pread => exact h.congr ⟨rfl, rfl⟩ rfl fun hf => ⟨hf, rfl⟩
  | receive hq =>
    cases hq with
    | header _ hs => exact (hno hs (by simp) (by simp) (by simp)).elim
    | size hs => exact (hno hs (by simp) (by simp) (by simp)).elim
    | body hs => exact (hno hs (by simp) (by simp) (by simp)).elim
  | begin hq =>
    cases hq with
    | put hl => exact (hno hl.state (by simp) (by simp) (by simp)).elim
    | upload hs => exact (hno hs (by simp) (by simp) (by simp)).elim
  | choose hq => exact (hq.replies_ne hone).elim
  | send hq => exact h.send hr hc hnames hq
  | close hq => exact (h.close hr hc hq).closeAndCleanup
  | fault hl => exact (hno hl.state (by simp) (by simp) (by simp)).elim

/-- A LIST whose OK is chosen. -/
theorem Choose.namesSent (h : Choose c c' .ok msg) (hc : ConnOk c)
    (hv : c'.client.requestVerb = .list) (hreplies : c'.replies = []) :
    c'.serverFiles = c.serverFiles ∧ NamesSent (fillResponse c' .ok msg).toConn ws := by
  cases h with
  | list hl =>
    refine ⟨rfl, ⟨hv, [], ?_⟩, .inl rfl, fun _ hd => (by cases hd), fun hd => (by cases hd),
      fun hd => (by cases hd)⟩
    rw [Conn.replies_of_log (l := [.reply .ok []]) rfl, hreplies]
    rfl
  | deleted hl => rw [removeFileFromList_client] at hv; cases hv
  | getOpened hl => cases hv
  | accepted hs =>
    rw [acceptUpload_client] at hv
    cases hv.symm.trans (hc.upload.data hs).2.2.1

/-- After an event a LIST with its OK has sent a part of one payload, and the list that it leaves
alone holds the names of it, if the event finished the OK line. -/
theorem Handled.namesSent (h : Handled c c') (hc : c.freed = false) (hok : ConnOk c)
    (hnames : c.replies = [] ∨ c.client.state = .sendOk →
      ∀ vs, Names c.serverFiles vs → vs = ws)
    (hold : Accepts c.toConn .list → NamesSent c.toConn ws) :
    Accepts c'.toConn .list → c'.serverFiles = c.serverFiles ∧ NamesSent c'.toConn ws ∧
      (c.replies = [] ∨ c.client.state = .sendOk → c'.client.state ≠ .sendOk →
        Names c.serverFiles ws) := by
  have hrun := h.invariant (P := fun x => ConnOk x ∧
    (x.replies = [] → x.serverFiles = c.serverFiles ∧ c.replies = []) ∧
    (Accepts x.toConn .list → x.serverFiles = c.serverFiles ∧ NamesSent x.toConn ws ∧
      (x.client.state = .sendOk → c.replies = [] ∨ c.client.state = .sendOk) ∧
      (c.replies = [] ∨ c.client.state = .sendOk → x.client.state ≠ .sendOk →
        Names c.serverFiles ws))) hc
    ⟨hok, fun hr => ⟨rfl, hr⟩, fun ha => ⟨rfl, hold ha, .inr, fun hs hne => ?_⟩⟩ ?_ ?_
  · exact fun ha => ⟨(hrun.2.2 ha).1, (hrun.2.2 ha).2.1, (hrun.2.2 ha).2.2.2⟩
  · -- a connection with an OK that is not sent to the end
    obtain ⟨-, m, hm⟩ := ha
    rcases hs with hr | hs
    · cases hm.symm.trans hr
    · exact absurd hs hne
  · rintro x y hx ⟨h1, h3, h4⟩ hxy
    refine ⟨connOk_stable.step x y hx h1 hxy, fun hr => ?_, fun ⟨hv, msg, hmsg⟩ => ?_⟩
    · -- no reply is chosen, so the list stays
      obtain ⟨l, hl⟩ := Conn.replies_mono hxy.log
      rw [hr] at hl
      obtain ⟨heq, hnil⟩ := h3 (List.append_eq_nil_iff.mp hl).1
      rcases hxy.serverFiles with hs | ⟨d, st, m, -, rfl⟩
      · exact ⟨hs.trans heq, hnil⟩
      · rw [Conn.replies_of_log (l := [.reply st m]) rfl] at hr
        simp [Call.reply?] at hr
    · rcases hxy.replied h1 hv hmsg with ⟨hv', hmsg'⟩ | ⟨d, hd, rfl, hv', hnil⟩
      · obtain ⟨heq, hsent, hfrom, hfinished⟩ := h4 ⟨hv', msg, hmsg'⟩
        have hone : y.replies = x.replies := hmsg.trans hmsg'.symm
        have hs : x.client.state.Sending := by
          rcases hsent.state with hs | hs | hs
          · exact .inl hs
          · exact .inr (.inr (.inr (.inr hs)))
          · cases hx.symm.trans (h1.done hs)
        refine ⟨(hxy.serverFiles_of_sending hs).trans heq,
          hsent.step h1.reply hx (fun hs => heq ▸ hnames (hfrom hs)) hone hxy, fun hs' => ?_,
          fun hc' hs' => ?_⟩
        · rcases hxy.sendOk hs' with hs | ⟨d, st, m, hd, rfl⟩
          · exact hfrom hs
          · exact (hd.replies_ne hone).elim
        · by_cases hsx : x.client.state = .sendOk
          · obtain ⟨vs, hvs⟩ := hxy.names_of_sendOk hsx hv' hs' hone
            rw [heq] at hvs
            exact hnames hc' vs hvs ▸ hvs
          · exact hfinished hc' hsx
      · obtain ⟨l, hl⟩ := hd.log
        rw [Conn.replies_of_log hl.symm] at hnil
        obtain ⟨heq, hfirst⟩ := h3 (List.append_eq_nil_iff.mp hnil).1
        obtain ⟨hfiles, hsent⟩ := hd.namesSent h1 hv'
          ((Conn.replies_of_log hl.symm).trans hnil)
        exact ⟨hfiles.trans heq, hsent, fun _ => .inl hfirst, fun _ hs => absurd rfl hs⟩
  · rintro x hx ⟨h1, h3, h4⟩
    refine ⟨connOk_stable.close x hx h1, fun hr => ?_, fun ⟨hv, msg, hmsg⟩ => ?_⟩
    · rw [closeAndCleanup_replies] at hr
      rw [closeAndCleanup_serverFiles]
      exact h3 hr
    · rw [closeAndCleanup_client] at hv
      rw [closeAndCleanup_replies] at hmsg
      obtain ⟨heq, hsent, hfrom, hfinished⟩ := h4 ⟨hv, msg, hmsg⟩
      refine ⟨(closeAndCleanup_serverFiles x).trans heq, hsent.closeAndCleanup, ?_⟩
      rw [closeAndCleanup_client]
      exact ⟨hfrom, hfinished⟩

/-- A connection that an event gives its OK had no reply and no open file before, if it did not
have the OK already. -/
theorem Handled.accepts (h : Handled c c') (hc : c.freed = false) (hf : c.fault = false)
    (hok : ConnOk c) {v : Verb} (hv : v ≠ .put) (ha : Accepts c'.toConn v) :
    Accepts c.toConn v ∨ c.replies = [] ∧ c.sent = [] ∧ c.download = none := by
  have hp := h.progress hc
  obtain ⟨hverb, msg, hmsg⟩ := ha
  obtain ⟨l, hl⟩ := Conn.replies_mono hp.log
  rw [hmsg] at hl
  cases hr : c.replies with
  | cons x rs =>
    rw [hr, List.cons_append, List.cons.injEq] at hl
    have hs : c.client.state ≠ .recvHeader := fun hs => by
      have hnil := (hok.reply.silent (.inl hs)).2
      cases hnil.symm.trans hr
    refine .inl ⟨(hp.settled (.inr hs)).2.verb.symm.trans hverb, msg, ?_⟩
    rw [hr, hl.1, (List.append_eq_nil_iff.mp hl.2).1]
  | nil =>
    refine .inr ⟨rfl, ?_⟩
    -- only a connection without a request has no reply and is no upload
    have hput : ∀ {s : ConnState}, c.client.state = s → s ≠ .recvHeader →
        c.client.requestVerb ≠ .put := fun hs hne hput => by
      subst hs
      exact hv (hverb.symm.trans ((hp.settled (.inr hne)).2.verb.trans hput))
    have hnil : ∀ {l : List (Status × List Byte)} {x : Status × List Byte},
        c.replies = l ++ [x] → False := fun h => by simp [hr] at h
    cases hs : c.client.state with
    | recvHeader =>
      exact ⟨(hok.reply.silent (.inl hs)).1,
        Conn.download_eq_none (hok.request.noPaths (hok.request.header hf hs).1)⟩
    | recvPutSize => exact absurd (hok.upload.size hs).2.2.1 (hput hs (by simp))
    | recvPutData => exact absurd (hok.upload.data hs).2.2.1 (hput hs (by simp))
    | sendOk =>
      obtain ⟨rs, st, m, hline⟩ := hok.reply.line (.inl hs)
      exact (hnil hline.replies).elim
    | sendError =>
      obtain ⟨rs, st, m, hline⟩ := hok.reply.line (.inr hs)
      exact (hnil hline.replies).elim
    | sendGetSize =>
      obtain ⟨m, hm⟩ := (hok.reply.size hs).1.replies
      exact (hnil (l := []) hm).elim
    | sendGetData =>
      obtain ⟨-, _, hpay, -⟩ := hok.reply.data hs
      obtain ⟨m, hm⟩ := hpay.replies
      exact (hnil (l := []) hm).elim
    | sendListData =>
      obtain ⟨_, -, -, -, hpay⟩ := hok.reply.list hs
      obtain ⟨m, hm⟩ := hpay.replies
      exact (hnil (l := []) hm).elim
    | done => cases hc.symm.trans (hok.done hs)

end Steps

/-! ### Runs -/

section Runs

variable {s : Server} {acts : List Action} {a : Action} {i : ConnId} {ws : List Path}
  {f : Handle} {n : Nat} {bs : List Byte}

namespace Server

theorem sent_eq {conn : Conn} (hi : s.conns[i]? = some conn) : s.sent i = conn.sent := by
  rw [sent, hi]; rfl

theorem download_eq {conn : Conn} (hi : s.conns[i]? = some conn) :
    s.download i = conn.download := by
  rw [download, hi]; rfl

/-- A connection stays where it is, and makes progress. -/
theorem conn_mono (h : MapInv s) {conn : Conn} (hi : (s.run acts).conns[i]? = some conn)
    (rest : List Action) :
    ∃ conn', (s.run (acts ++ rest)).conns[i]? = some conn' ∧ conn.Progress conn' := by
  rw [run_append]
  exact (run_le (h.run acts) rest).conns i conn hi

theorem sent_mono (h : MapInv s) (acts rest : List Action) (i : ConnId) :
    (s.run acts).sent i <+: (s.run (acts ++ rest)).sent i := by
  cases hi : (s.run acts).conns[i]? with
  | none => rw [sent, hi]; exact List.nil_prefix
  | some conn =>
    obtain ⟨conn', hi', hp⟩ := conn_mono h hi rest
    rw [sent_eq hi, sent_eq hi']
    exact Conn.sent_mono hp.log

theorem download_mono (h : MapInv s) (rest : List Action)
    (hf : (s.run acts).download i = some f) : (s.run (acts ++ rest)).download i = some f := by
  cases hi : (s.run acts).conns[i]? with
  | none => rw [download, hi] at hf; cases hf
  | some conn =>
    obtain ⟨conn', hi', hp⟩ := conn_mono h hi rest
    rw [download_eq hi] at hf
    rw [download_eq hi']
    exact Conn.download_mono hp.log hf

end Server

/-- A connection that has not finished its OK line has nothing listed. -/
theorem ListedAs.of_not (h : MapInv s) (hs : ¬ okLine <+: (s.run acts).sent i) :
    ListedAs s acts i ws := by
  rintro pre b post rfl - hline
  refine absurd (hline.trans ?_) hs
  have := Server.sent_mono h (pre ++ [b]) post i
  rwa [List.append_assoc] at this

theorem ListedAs.concat (h : ListedAs s acts i ws)
    (ha : ¬ okLine <+: (s.run acts).sent i → okLine <+: (s.run (acts ++ [a])).sent i →
      Names (s.run (acts ++ [a])).serverFiles ws) : ListedAs s (acts ++ [a]) i ws :=
  Chain.forall_split_concat.mpr ⟨h, ha⟩

/-- A connection that has opened nothing. -/
theorem OpenedAs.of_none (h : MapInv s) (hs : (s.run acts).download i = none) :
    OpenedAs s acts i f n bs := by
  rintro pre b post rfl - hf
  have := Server.download_mono h post hf
  rw [List.append_assoc] at this
  cases hs.symm.trans this

theorem OpenedAs.concat (h : OpenedAs s acts i f n bs)
    (ha : (s.run acts).download i = none → (s.run (acts ++ [a])).download i = some f →
      (s.run (acts ++ [a])).disk.size f = n ∧ (s.run (acts ++ [a])).disk.bytes f = bs) :
    OpenedAs s (acts ++ [a]) i f n bs :=
  Chain.forall_split_concat.mpr ⟨h, ha⟩

/-- What is known of every connection of a run with enough memory. -/
theorem connOk_memOk (k : Disk) (hmem : ∀ a ∈ acts, a.Plenty) {conn : Conn}
    (hi : ((Server.boot k).run acts).conns[i]? = some conn) :
    ConnOk (((Server.boot k).run acts).ctx conn) ∧ MemOk (((Server.boot k).run acts).ctx conn) ∧
      conn.replies.length ≤ 1 := by
  have hok := connOk_stable.run (.boot k) (fun conn h => by cases h) acts
  have hp := (Plenty.boot k).run (.boot k) (fun conn h => by cases h) hmem
  have hconn := List.mem_of_getElem? hi
  exact ⟨hok conn hconn, ⟨(hp.conns conn hconn).1, hp.names⟩, (hp.conns conn hconn).2⟩

/-- The names that a list can hold. -/
theorem exists_names (v : FssVector Path) : ∃ ws, ∀ vs, Names v vs → vs = ws := by
  by_cases h : ∃ ws, Names v ws
  · obtain ⟨ws, hws⟩ := h
    exact ⟨ws, fun vs hvs => hvs.unique hws⟩
  · exact ⟨[], fun vs hvs => absurd ⟨vs, hvs⟩ h⟩

theorem connOk_run (k : Disk) {conn : Conn}
    (hi : ((Server.boot k).run acts).conns[i]? = some conn) :
    ConnOk (((Server.boot k).run acts).ctx conn) :=
  connOk_stable.run (.boot k) (fun conn h => by cases h) acts conn (List.mem_of_getElem? hi)

/-- **A listing in a run** sends the names that the list held when its OK line was finished. -/
theorem namesSent_run (k : Disk) {conn : Conn}
    (hi : ((Server.boot k).run acts).conns[i]? = some conn) (ha : Accepts conn .list) :
    ∃ ws, NamesSent conn ws ∧ ListedAs (Server.boot k) acts i ws := by
  induction acts using List.reverseRecOn generalizing conn with
  | nil => cases hi
  | append_singleton acts a ih =>
    have hmap := (MapInv.boot k).run acts
    have hok' := connOk_run k hi
    have hi' := hi
    rw [Server.run_concat] at hi
    cases Server.act_moved hmap hi with
    | same hi₀ =>
      obtain ⟨ws, hsent, hlist⟩ := ih hi₀ ha
      refine ⟨ws, hsent, hlist.concat fun hn hy => absurd ?_ hn⟩
      rwa [Server.sent_eq hi', ← Server.sent_eq hi₀] at hy
    | new _ hconn =>
      rw [hconn] at ha
      cases ha.1
    | @own conn₀ c hfault hi₀ hlive h hconn hdisk hfiles hmono =>
      have hok := connOk_run k hi₀
      subst hconn
      by_cases hA : Accepts conn₀ .list ∧ conn₀.client.state ≠ .sendOk
      · have hno : ¬ (conn₀.replies = [] ∨ conn₀.client.state = .sendOk) := by
          obtain ⟨⟨-, m, hm⟩, hs⟩ := hA
          rintro (hr | hs')
          · cases hm.symm.trans hr
          · exact hs hs'
        obtain ⟨ws, hsent, hlist⟩ := ih hi₀ hA.1
        obtain ⟨-, hsent', -⟩ := h.namesSent hlive hok (fun hs => absurd hs hno)
          (fun _ => hsent) ha
        refine ⟨ws, hsent', hlist.concat fun hn _ => absurd ?_ hn⟩
        rw [Server.sent_eq hi₀]
        rcases hsent.state with hs | hs | hs
        · exact absurd hs hA.2
        · rw [hsent.data hs]; exact List.prefix_append ..
        · rw [hsent.done hs]; exact List.prefix_append ..
      · -- the OK line was not finished: the names are those in the list now
        obtain ⟨ws, hws⟩ := exists_names ((Server.boot k).run acts).serverFiles
        have hold : Accepts conn₀ .list → conn₀.client.state = .sendOk := fun hacc => by
          by_contra hs
          exact hA ⟨hacc, hs⟩
        obtain ⟨hfiles', hsent, hnames⟩ := h.namesSent hlive hok (fun _ => hws) (fun hacc => by
          have hs := hold hacc
          exact ⟨hacc, .inl hs, fun _ hd => (by cases hs.symm.trans hd),
            fun hd => (by cases hs.symm.trans hd), fun hd => (by cases hs.symm.trans hd)⟩) ha
        have hbefore : (conn₀.replies = [] ∨ conn₀.client.state = .sendOk) ∧
            ¬ okLine <+: conn₀.sent := by
          rcases h.accepts hlive hfault hok (by simp) ha with hacc | ⟨hr, hnil, -⟩
          · exact ⟨.inr (hold hacc), hacc.not_okLine hok.reply (hold hacc)⟩
          · rw [show conn₀.sent = [] from hnil]
            exact ⟨.inl hr, by decide⟩
        refine ⟨ws, hsent, (ListedAs.of_not (.boot k) ?_).concat fun _ hline => ?_⟩
        · rw [Server.sent_eq hi₀]
          exact hbefore.2
        · rw [Server.sent_eq hi'] at hline
          rw [Server.run_concat, hfiles, hfiles']
          exact hnames hbefore.1 fun hs => ha.not_okLine hok'.reply hs hline

/-- **A download in a run** sends the file as it was when it was opened, while nobody changes
it. -/
theorem fileSent_run (k : Disk) (hfile : Unmodified (Server.boot k) acts i) {conn : Conn}
    (hi : ((Server.boot k).run acts).conns[i]? = some conn) (ha : Accepts conn .get) :
    ∃ f n bs, FileSent conn f n bs ∧ OpenedAs (Server.boot k) acts i f n bs ∧
      (conn.freed = false → ((Server.boot k).run acts).disk.size f = n ∧
        ((Server.boot k).run acts).disk.bytes f = bs) := by
  induction acts using List.reverseRecOn generalizing conn with
  | nil => cases hi
  | append_singleton acts a ih =>
    obtain ⟨hfile', hlast⟩ := Chain.forall_split_concat.mp hfile
    have hmap := (MapInv.boot k).run acts
    have htree := (Server.turn_le (Server.act_turn hmap a)).disk.tree
    have hi' := hi
    rw [Server.run_concat] at hi hlast ⊢
    -- a file that was open before this action is as it was
    have hkeep : ∀ {conn₀ : Conn} {f n bs}, ((Server.boot k).run acts).conns[i]? = some conn₀ →
        FileSent conn₀ f n bs → conn₀.freed = false →
        ((Server.boot k).run acts).disk.size f = n ∧ ((Server.boot k).run acts).disk.bytes f = bs →
        (((Server.boot k).run acts).act a).disk.size f = n ∧
          (((Server.boot k).run acts).act a).disk.bytes f = bs :=
      fun hi₀ hsent hlive hd => by
        have hbytes := hlast _ _ hi₀ hlive hsent.accepts.1 (hsent.fd hlive)
        exact ⟨(Disk.size_congr htree hbytes).trans hd.1, hbytes.trans hd.2⟩
    cases Server.act_moved hmap hi with
    | same hi₀ =>
      obtain ⟨f, n, bs, hsent, hopen, hd⟩ := ih hfile' hi₀ ha
      refine ⟨f, n, bs, hsent, hopen.concat fun hn _ => ?_,
        fun hlive => hkeep hi₀ hsent hlive (hd hlive)⟩
      rw [Server.download_eq hi₀, hsent.download] at hn
      cases hn
    | new _ hconn =>
      obtain ⟨-, m, hm⟩ := ha
      rw [hconn] at hm
      cases hm
    | @own conn₀ c hfault hi₀ hlive h hconn hdisk hfiles hmono =>
      have hok := connOk_run k hi₀
      subst hconn
      have hold : Accepts conn₀ .get → ∃ f, FileSent conn₀ f
          (((Server.boot k).run acts).disk.size f) (((Server.boot k).run acts).disk.bytes f) :=
        fun hacc => by
          obtain ⟨f, n, bs, hsent, -, hd⟩ := ih hfile' hi₀ hacc
          obtain ⟨rfl, rfl⟩ := hd hlive
          exact ⟨f, hsent⟩
      obtain ⟨f, hsent'⟩ := h.fileSent hlive hok hold ha
      rw [← hdisk] at hsent'
      refine ⟨f, _, _, hsent', ?_, fun _ => ⟨rfl, rfl⟩⟩
      rcases h.accepts hlive hfault hok (by simp) ha with hacc | ⟨-, -, hnone⟩
      · obtain ⟨g, n, bs, hsent, hopen, hd⟩ := ih hfile' hi₀ hacc
        have hp := h.progress hlive
        obtain rfl : g = f :=
          Option.some.inj ((Conn.download_mono hp.log hsent.download).symm.trans hsent'.download)
        obtain ⟨h1, h2⟩ := hkeep hi₀ hsent hlive (hd hlive)
        rw [h1, h2]
        refine hopen.concat fun hn _ => ?_
        rw [Server.download_eq hi₀, hsent.download] at hn
        cases hn
      · refine (OpenedAs.of_none (.boot k) ?_).concat fun _ _ => ?_
        · rw [Server.download_eq hi₀]
          exact hnone
        · rw [Server.run_concat]
          exact ⟨rfl, rfl⟩

/-- **Replies are byte exact.** Where allocations succeed, and no file is modified while the
connection has it open for GET, there is one reply of which the bytes sent are a prefix at every
moment, and which is sent as a whole when `STATE_DONE` is reached. -/
theorem sent_prefix (k : Disk) (acts : List Action) (hmem : ∀ a ∈ acts, a.Plenty) (i : ConnId)
    (hfile : Unmodified (Server.boot k) acts i) {conn : Conn}
    (hi : ((Server.boot k).run acts).conns[i]? = some conn) :
    ∃ reply, IsReply (Server.boot k) acts i conn reply ∧
      ∀ pre, pre <+: acts → ∀ conn', ((Server.boot k).run pre).conns[i]? = some conn' →
        conn'.sent <+: reply ∧ (conn'.client.state = .done → conn'.sent = reply) := by
  obtain ⟨hok, hm, hle⟩ := connOk_memOk k hmem hi
  suffices h : ∃ reply, IsReply (Server.boot k) acts i conn reply ∧ conn.sent <+: reply ∧
      (conn.client.state = .done → conn.sent = reply) by
    obtain ⟨reply, hreply, hpre, hdone⟩ := h
    refine ⟨reply, hreply, ?_⟩
    rintro pre ⟨rest, rfl⟩ conn' hi'
    obtain ⟨conn'', hi'', hp⟩ := Server.conn_mono (.boot k) hi' rest
    obtain rfl := Option.some.inj (hi.symm.trans hi'')
    refine ⟨(Conn.sent_mono hp.log).trans hpre, fun hs => ?_⟩
    have hfreed := (connOk_memOk k (fun a ha => hmem a (List.mem_append_left _ ha)) hi').1.done hs
    have heq := hp.freed hfreed
    rw [← heq]
    exact hdone (by rw [heq]; exact hs)
  match hr : conn.replies, hle with
  | [], _ =>
    obtain ⟨hnil, hne⟩ := hok.reply.sent_nil hr
    exact ⟨[], .none hr, hnil ▸ List.prefix_rfl, fun hs => absurd hs hne⟩
  | [(.error, msg)], _ =>
    exact ⟨_, .rejected hr, hok.reply.line_prefix hr fun h => (by cases h)⟩
  | [(.ok, msg)], _ =>
    have hreply : ReplyOk conn := hok.reply
    cases hv : conn.client.requestVerb with
    | get =>
      obtain ⟨f, n, bs, hsent, hopen, -⟩ := fileSent_run k hfile hi ⟨hv, msg, hr⟩
      refine ⟨_, .file hr hv hsent.download hopen, ?_⟩
      rw [List.append_assoc]
      exact ⟨hsent.prefix_of hok.reply, hsent.done⟩
    | list =>
      obtain ⟨ws, hsent, hlist⟩ := namesSent_run k hi ⟨hv, msg, hr⟩
      refine ⟨_, .names hr hv hlist, ?_⟩
      rw [List.append_assoc]
      exact ⟨hsent.prefix_of hok.reply, hsent.done⟩
    | put =>
      exact ⟨_, .done hr (.inl hv), hreply.line_prefix hr fun _ => by simp [hv]⟩
    | delete =>
      exact ⟨_, .done hr (.inr hv), hreply.line_prefix hr fun _ => by simp [hv]⟩
    | unknown =>
      rw [show conn.client.requestVerb = _ from hok.request.verb] at hv
      exact absurd hv (verbOf_requestOf_ne _)

/-- A client uploads `hi` as `x`; another one gets it, byte by byte. -/
def uploadThenGet : List Action :=
  [.accept 5 ⟨pushBack (ascii "PUT x\n" ++ sizeBytes 2 ++ ascii "hi") [], [.room 3], [], []⟩,
    .event 5 .onRead, .event 5 .onRead, .accept 5 ⟨pushBack (ascii "GET x\n") [],
      [.room 2, .eagain, .room 1, .room 5, .room 3, .room 1, .room 1], [], []⟩,
    .event 5 .onRead, .event 5 .onWrite, .event 5 .onWrite, .event 5 .onWrite, .event 5 .onWrite,
    .event 5 .onWrite, .event 5 .onWrite]

theorem sent_prefix_uploadThenGet : ∃ conn,
    ((Server.boot bareDisk).run uploadThenGet).conns[1]? = some conn ∧ conn.client.state = .done ∧
      ∃ reply, IsReply (Server.boot bareDisk) uploadThenGet 1 conn reply ∧ conn.sent = reply := by
  obtain ⟨conn, hi, hs⟩ : ∃ conn ∈ ((Server.boot bareDisk).run uploadThenGet).conns[1]?,
      conn.client.state = .done := by decide +kernel
  have hfile : ∀ j < uploadThenGet.length,
      ∀ conn ∈ ((Server.boot bareDisk).run (uploadThenGet.take j)).conns[1]?,
      ∀ f ∈ conn.client.fileFd, conn.freed = false → conn.client.requestVerb = .get →
        ((Server.boot bareDisk).run (uploadThenGet.take (j + 1))).disk.bytes f
          = ((Server.boot bareDisk).run (uploadThenGet.take j)).disk.bytes f := by decide +kernel
  obtain ⟨reply, hreply, hpre⟩ := sent_prefix bareDisk uploadThenGet
    (by simp [uploadThenGet, Action.Plenty]) 1 (fun pre a post heq conn f hi hlive hv hf => by
      have htake : uploadThenGet.take (pre.length + 1) = pre ++ [a] := by
        rw [heq, List.take_length_add_append]; rfl
      have h := hfile pre.length (by rw [heq]; simp) conn
      rw [htake, show uploadThenGet.take pre.length = pre by rw [heq, List.take_left]] at h
      exact h hi f hf hlive hv) hi
  exact ⟨conn, hi, hs, reply, hreply, (hpre _ List.prefix_rfl conn hi).2 hs⟩

end Runs

end FileServer
