/-
  Connections that are served one after the other.

  The list and the directory hold a `Store`.  A connection goes through three phases:
  while it asks, the server is as it was; while it uploads, one file is in the making;
  and from the choice of the reply on, the server is what the request leaves.  `Clean`
  are the scripts without errors: the bytes come in pieces of any size, with pauses.
-/
import FileServer.Advertised
import FileServer.Interleaving
import FileServer.Store
import FileServer.Verdict
import Mathlib.Data.List.Infix

namespace FileServer

/-! ### Scripts without errors -/

/-- No socket error, no failing file operation, and memory to be had. -/
structure Clean (s : Script) : Prop where
  rx : RxItem.err ∉ s.rx
  tx : TxItem.err ∉ s.tx
  fx : s.fx = []
  mem : s.mem = []

namespace Clean

variable {s : Script}

theorem file_eq (h : Clean s) : s.file = (.ok, s) := by rw [Script.file, h.fx]

theorem alloc_eq (h : Clean s) : s.alloc = (true, s) := by rw [Script.alloc, h.mem]

theorem file (h : Clean s) : Clean s.file.2 := by
  rw [h.file_eq]
  exact h

theorem alloc (h : Clean s) : Clean s.alloc.2 := by
  rw [h.alloc_eq]
  exact h

theorem read (h : Clean s) (n : Nat) : Clean (s.read n).2 ∧ (s.read n).1 ≠ .err := by
  obtain ⟨hrx, htx, hfx, hmem⟩ := h
  unfold Script.read
  cases hs : s.rx with
  | nil => exact ⟨⟨hrx, htx, hfx, hmem⟩, by simp⟩
  | cons x rx =>
    rw [hs] at hrx
    have hrest : RxItem.err ∉ rx := fun hm => hrx (List.mem_cons_of_mem _ hm)
    cases x with
    | data b bs =>
      refine ⟨⟨?_, htx, hfx, hmem⟩, by simp⟩
      dsimp only
      cases (b :: bs).drop n with
      | nil => exact hrest
      | cons b' bs' => simpa [pushBack] using hrest
    | eof => exact ⟨⟨by rw [hs]; exact hrx, htx, hfx, hmem⟩, by simp⟩
    | eagain => exact ⟨⟨hrest, htx, hfx, hmem⟩, by simp⟩
    | eintr => exact ⟨⟨hrest, htx, hfx, hmem⟩, by simp⟩
    | err => simp at hrx

/-- Where a read ends, nothing is left to come. -/
theorem read_ended (h : Clean s) {n : Nat} (hn : 0 < n) (hr : (s.read n).1.Ended) :
    incoming s.rx = [] := by
  have hnoerr := (h.read n).2
  unfold Script.read at hr hnoerr
  cases hrx : s.rx with
  | nil => rfl
  | cons x rx =>
    rw [hrx] at hr hnoerr
    cases x with
    | data b bs =>
      rcases hr with hr | hr | hr
      · cases hr
      · cases hr
      · have hnil := ReadResult.bytes.inj hr
        cases n with
        | zero => exact absurd hn (Nat.lt_irrefl _)
        | succ n => cases hnil
    | eof => rfl
    | eagain => rcases hr with hr | hr | hr <;> cases hr
    | eintr => rcases hr with hr | hr | hr <;> cases hr
    | err => exact absurd rfl hnoerr

theorem write (h : Clean s) (n : Nat) : Clean (s.write n).2 ∧ (s.write n).1 ≠ .err := by
  obtain ⟨hrx, htx, hfx, hmem⟩ := h
  unfold Script.write
  cases hs : s.tx with
  | nil => exact ⟨⟨hrx, htx, hfx, hmem⟩, by simp⟩
  | cons x tx =>
    rw [hs] at htx
    have hrest : TxItem.err ∉ tx := fun hm => htx (List.mem_cons_of_mem _ hm)
    cases x with
    | room m => exact ⟨⟨hrx, hrest, hfx, hmem⟩, by simp⟩
    | eagain => exact ⟨⟨hrx, hrest, hfx, hmem⟩, by simp⟩
    | err => simp at htx

end Clean

section Scripts

variable {c c' : Ctx} {st : Status} {msg : List Byte}

theorem addFileToList_script (h : Clean c.script) (name : Path) :
    (addFileToList c name).script = c.script := by
  unfold addFileToList Ctx.use
  dsimp only
  split
  · rfl
  · rfl
  · have halloc : ∀ d : Ctx, d.script = c.script → d.sysAlloc = (true, d) := fun d hd => by
      unfold Ctx.sysAlloc
      rw [hd, h.alloc_eq, ← hd]
    simp only [halloc]
    split_ifs <;> rfl

theorem buildListBuffer_script (h : Clean c.script) :
    (buildListBuffer c).2.script = c.script := by
  unfold buildListBuffer Ctx.use
  dsimp only
  split
  · rfl
  · dsimp only [Ctx.sysAlloc]
    rw [h.alloc_eq]

theorem closeAndCleanup_clean (h : Clean c.script) : Clean (closeAndCleanup c).script := by
  unfold closeAndCleanup
  dsimp only
  split_ifs
  · exact h.file
  · exact h

theorem Choose.clean (h : Choose c c' st msg) (hs : Clean c.script) : Clean c'.script := by
  cases h with
  | bad => exact (hs.read 1).1
  | tooLong => exact hs
  | list => exact (hs.read 1).1
  | deleteAbsent => exact (hs.read 1).1
  | deleteFailed => exact (hs.read 1).1.file
  | deleted =>
    rw [removeFileFromList_script]
    exact (hs.read 1).1.file
  | getMissing => exact (hs.read 1).1.file
  | getFailed => exact (hs.read 1).1.file.file
  | getOpened => exact (hs.read 1).1.file.file
  | sizeCut => exact (hs.read _).1
  | openFailed => exact hs.file
  | bodyCut => exact (hs.read _).1
  | noFile => exact (hs.read _).1
  | bodyFailed => exact (hs.read _).1.file
  | extraByte => exact (hs.read _).1
  | accepted =>
    have hread : Clean (((readExtra c).2.note (.accept (readExtra c).2.client.filename))).script :=
      (hs.read _).1
    unfold acceptUpload
    dsimp only
    rw [addFileToList_script hread]
    exact hread
  | @listNoMemory n =>
    have hsent : Clean (sentLine c n).script := (hs.write _).1
    rw [buildListBuffer_script hsent]
    exact hsent

theorem Send.clean (h : Send c c') (hs : Clean c.script) : Clean c'.script := by
  cases h with
  | lineList =>
    rename_i n buffer _ _ _ _
    have hsent : Clean (sentLine c n).script := (hs.write _).1
    change Clean (buildListBuffer (sentLine c n)).2.script
    rw [buildListBuffer_script hsent]
    exact hsent
  | loadSize _ hl =>
    rw [loadGetSize_of_zero hl]
    exact hs
  | data => exact (hs.file.write _).1
  | _ => exact (hs.write _).1

theorem Close.clean (h : Close c c') (hs : Clean c.script) : Clean c'.script := by
  cases h with
  | header => exact (hs.read _).1
  | noFile => exact hs
  | pread => exact hs.file
  | got => exact hs
  | data => exact (hs.file.write _).1
  | _ => exact (hs.write _).1

theorem Step.clean (h : Step c c') (hs : Clean c.script) : Clean c'.script := by
  cases h with
  | quiet h =>
    cases h with
    | read => exact (hs.read _).1
    | write => exact (hs.write _).1
    | pread => exact hs.file
  | receive h =>
    cases h with
    | header => exact (hs.read _).1
    | size => exact (hs.read _).1
    | body => exact (hs.read _).1.file
  | begin h =>
    cases h with
    | put => exact (hs.read _).1
    | upload => exact hs.file
  | choose h => exact h.clean hs
  | send h => exact h.clean hs
  | close h => exact closeAndCleanup_clean (h.clean hs)
  | fault => exact (hs.read _).1

end Scripts

/-! ### One connection -/

/-- The list and the directory hold the map. -/
structure Represents (m : Store) (g : Globals) : Prop where
  names : Names g.serverFiles m.keys
  nodup : m.keys.Nodup
  files : ∀ w, g.disk.lookup (g.disk.tree.temp, w) = m.get w

theorem Represents.congr {m : Store} {g g' : Globals} (h : Represents m g)
    (hfiles : g'.serverFiles = g.serverFiles) (hdisk : g'.disk = g.disk) : Represents m g' :=
  ⟨hfiles ▸ h.names, h.nodup, by rw [hdisk]; exact h.files⟩

/-- A reply is chosen whose bytes are these. -/
inductive Replying (bytes : List Byte) (c : Ctx) : Prop
  | line {st : Status} {msg : List Byte} (hreplies : c.replies = [(st, msg)])
      (hlast : st = .ok → c.client.requestVerb ≠ .get ∧ c.client.requestVerb ≠ .list)
      (htext : bytes = responseText st msg)
  | file {f : Handle} {body : List Byte} (hsent : FileSent c.toConn f body.length body)
      (hbody : c.disk.bytes f = body)
      (htext : bytes = okLine ++ (sizeBytes body.length ++ body))
  | names {ws : List Path} (hsent : NamesSent c.toConn ws) (hnames : Names c.serverFiles ws)
      (htext : bytes = okLine ++ listPayload ws)

/-- A connection whose request is not complete. -/
structure Unanswered (bytes : List Byte) (c : Ctx) : Prop where
  live : c.freed = false
  stream : c.received ++ incoming c.script.rx = bytes
  size : c.client.expectedSize < 2 ^ 64

/-- The file of an upload of `w` is in the making. -/
structure Putting (m : Store) (w : Path) (c : Ctx) : Prop where
  line : c.client.headerBuf = nameLine (ascii "PUT") w ++ [newline]
  names : Names c.serverFiles m.keys
  nodup : m.keys.Nodup
  others : ∀ v, v ≠ w → c.disk.lookup (c.disk.tree.temp, v) = m.get v

/-- How far a connection is with its request, where the server held the map `m` before it. -/
inductive Phase (m : Store) (op : Op) (bytes : List Byte) (c : Ctx) : Prop
  | asking (hs : c.client.state = .recvHeader) (harr : Unanswered bytes c)
      (hrep : Represents m c.toGlobals)
  | uploading {w : Path} {body : List Byte} (hop : op = .put w body)
      (hs : c.client.state = .recvPutSize ∨ c.client.state = .recvPutData)
      (harr : Unanswered bytes c) (hput : Putting m w c)
  | replying (hs : c.client.state.Sending ∨ c.client.state = .done)
      (hdone : c.freed = true → c.client.state = .done) (hreply : Replying (m.serve op).1 c)
      (hrep : Represents (m.serve op).2 c.toGlobals)

/-- A connection that serves a request in a world without errors. -/
structure Serving (m : Store) (op : Op) (bytes : List Byte) (c : Ctx) : Prop where
  conn : ConnOk c
  handle : HandleOk c
  filled : Filled c
  clean : Clean c.script
  fault : c.fault = false
  phase : Phase m op bytes c

section Steps

variable {m : Store} {op : Op} {bytes : List Byte} {c c' : Ctx} {st : Status} {msg : List Byte}
  {q : Request} {w : Path} {body : List Byte}

theorem Serving.memOk (h : Serving m op bytes c) : MemOk c := by
  cases h.phase with
  | asking _ _ hrep => exact ⟨h.clean.mem, _, hrep.names⟩
  | uploading _ _ _ hput => exact ⟨h.clean.mem, _, hput.names⟩
  | replying _ _ _ hrep => exact ⟨h.clean.mem, _, hrep.names⟩

/-- A read passes bytes from the input to the log. -/
theorem sysRead_stream (n : Nat) (hstream : c.received ++ incoming c.script.rx = bytes) :
    (c.sysRead n).2.received ++ incoming (c.sysRead n).2.script.rx = bytes := by
  have hlog : (c.sysRead n).2.received = c.received ++ (c.sysRead n).1.found := by
    rw [Conn.received_of_log (Ctx.sysRead_log c n), List.flatMap_singleton]
    cases (c.sysRead n).1 <;> rfl
  rw [hlog, List.append_assoc]
  change c.received ++ ((c.script.read n).1.found ++ incoming (c.script.read n).2.rx) = bytes
  rw [← incoming_read]
  exact hstream

/-- Where a read ends, all that was sent is received. -/
theorem stream_ended (hclean : Clean c.script) {n : Nat} (hn : 0 < n)
    (hr : (c.sysRead n).1.Ended) (hstream : c.received ++ incoming c.script.rx = bytes) :
    c.received = bytes := by
  rw [← hstream, hclean.read_ended hn hr, List.append_nil]

/-! ### Sending -/

theorem Replying.file_of_get (h : Replying bytes c) (hr : ReplyOk c.toConn)
    (hs : c.client.state = .sendGetData ∨ c.client.state = .sendGetSize) :
    ∃ f body, FileSent c.toConn f body.length body ∧ c.disk.bytes f = body := by
  have hpay : ∃ payload, PayloadOk c.toConn .get payload := by
    rcases hs with hs | hs
    · obtain ⟨-, bs, hpay, -⟩ := hr.data hs
      exact ⟨_, hpay⟩
    · exact ⟨_, (hr.size hs).1⟩
  obtain ⟨payload, hverb, ⟨msg, hreplies⟩, -⟩ := hpay
  cases h with
  | line hreplies' hlast =>
    obtain ⟨rfl, -⟩ := Prod.mk.inj (List.singleton_inj.mp (hreplies'.symm.trans hreplies))
    exact absurd hverb (hlast rfl).1
  | file hsent hbody => exact ⟨_, _, hsent, hbody⟩
  | names hsent => cases hverb.symm.trans hsent.accepts.1

/-- **Closing.** Without errors a connection is closed when its reply is sent. -/
theorem Close.done_of_replying (h : Close c c') (hreply : Replying bytes c) (hr : ReplyOk c.toConn)
    (hclean : Clean c.script) (hc : c.freed = false) (hs : c.client.state.Sending) :
    c'.client.state = .done := by
  have hwrite : ∀ bs, (c.sysWrite bs).1 ≠ .err := fun bs => (hclean.write _).2
  cases h with
  | header hs' => exact absurd hs' hs.ne.1
  | line _ hw => exact absurd hw (hwrite _)
  | replied => rfl
  | size _ _ hw => exact absurd hw (hwrite _)
  | noFile hs' _ hh =>
    obtain ⟨f, body, hsent, -⟩ := hreply.file_of_get hr (.inl hs')
    cases hh.symm.trans (hsent.fd hc)
  | @pread f hs' hlen hh hp =>
    -- the file has all the bytes that `fstat` promised
    exfalso
    obtain ⟨g, body, hsent, hbody⟩ := hreply.file_of_get hr (.inl hs')
    obtain rfl := Option.some.inj (hh.symm.trans (hsent.fd hc))
    have hlen' : c.client.bytesTransferred < body.length := hsent.size ▸ hlen
    have hroom : 0 < dataRoom c.client := by
      simp only [dataRoom, bufferSize]
      omega
    have hfile : (readData c f).1
        = c.disk.pread f (dataRoom c.client) c.client.bytesTransferred := by
      simp only [readData, Ctx.sysPread, hclean.file_eq]
    cases f with
    | dir d =>
      rw [← hbody] at hlen'
      exact absurd hlen' (Nat.not_lt_zero _)
    | file l gen =>
      have hsome : c.disk.pread (.file l gen) (dataRoom c.client) c.client.bytesTransferred
          = some ((body.drop c.client.bytesTransferred).take (dataRoom c.client)) := by
        rw [← hbody]
        rfl
      rw [hfile, hsome] at hp
      rcases hp with hp | hp
      · cases hp
      · have hnil := congrArg List.length (Option.some.inj hp)
        rw [List.length_take, List.length_drop, List.length_nil] at hnil
        omega
  | data _ _ _ _ _ hw => exact absurd hw ((hclean.file.write _).2)
  | got => rfl
  | list _ hw => exact absurd hw (hwrite _)
  | listed => rfl

/-- What is left to do once a reply is chosen. -/
theorem Step.of_sending (h : Step c c') (hm : MemOk c) (hs : c.client.state.Sending) :
    Quiet c c' ∨ Send c c' ∨ ∃ k, Close c k ∧ c' = closeAndCleanup k := by
  obtain ⟨h1, h2, h3, -⟩ := hs.ne
  cases h with
  | quiet hq => exact .inl hq
  | receive hr =>
    cases hr with
    | header _ hs' => exact absurd hs' h1
    | size hs' => exact absurd hs' h2
    | body hs' => exact absurd hs' h3
  | begin hb =>
    cases hb with
    | put hl => exact absurd hl.state h1
    | upload hs' => exact absurd hs' h2
  | choose hch =>
    -- a second reply is chosen only where memory runs out
    cases hch with
    | tooLong hs' => exact absurd hs' h1
    | bad hl | list hl | deleteAbsent hl | deleteFailed hl | deleted hl | getMissing hl
    | getFailed hl | getOpened hl => exact absurd hl.state h1
    | sizeCut hs' | openFailed hs' => exact absurd hs' h2
    | bodyCut hs' | noFile hs' | bodyFailed hs' | extraByte hs' | accepted hs' =>
      exact absurd hs' h3
    | listNoMemory _ _ _ hb => exact absurd hb hm.buildListBuffer.1
  | send hsend => exact .inr (.inl hsend)
  | close hk => exact .inr (.inr ⟨_, hk, rfl⟩)
  | fault hl => exact absurd hl.state h1

/-- What a step leaves alone while a reply is sent. -/
structure SendsOn (c c' : Ctx) : Prop where
  disk : c'.disk = c.disk
  files : c'.serverFiles = c.serverFiles
  replies : c'.replies = c.replies
  state : c'.client.state.Sending ∨ c'.client.state = .done
  done : c'.freed = true → c'.client.state = .done

/-- A connection that sends a reply goes on sending it, or is done. -/
theorem Replying.sendsOn (h : Replying bytes c) (hok : ConnOk c) (hclean : Clean c.script)
    (hm : MemOk c) (hc : c.freed = false) (hs : c.client.state.Sending) (hstep : Step c c') :
    SendsOn c c' := by
  rcases hstep.of_sending hm hs with hq | hsend | ⟨k, hk, rfl⟩
  · have hsame : c'.client = c.client ∧ c'.toGlobals = c.toGlobals ∧ c'.freed = c.freed := by
      cases hq <;> exact ⟨rfl, rfl, rfl⟩
    obtain ⟨hclient, hglobals, hfreed⟩ := hsame
    refine ⟨by rw [hglobals], by rw [hglobals], ?_, .inl (hclient ▸ hs), fun hf => ?_⟩
    · cases hq with
      | read => exact (SameReply.of_log (Ctx.sysRead_log c _) rfl rfl).replies
      | write => exact sysWrite_replies _
      | pread => rfl
    · cases (hfreed.symm.trans hf).symm.trans hc
  · exact ⟨hsend.disk, hsend.serverFiles, hsend.replies, .inl hsend.sending,
      fun hf => by cases (hsend.freed.symm.trans hf).symm.trans hc⟩
  · have hdone := hk.done_of_replying h hok.reply hclean hc hs
    have hstate : (closeAndCleanup k).client.state = .done := by
      rw [closeAndCleanup_client]
      exact hdone
    refine ⟨?_, ?_, ?_, .inr hstate, fun _ => hstate⟩
    · rw [closeAndCleanup_disk, if_neg, hk.disk]
      exact fun hu => hu.2 hdone
    · rw [closeAndCleanup_serverFiles]
      cases hk <;> rfl
    · rw [closeAndCleanup_replies]
      exact hk.replies

/-- **Sending.** A step keeps the reply. -/
theorem Replying.step (h : Replying bytes c) (hok : ConnOk c) (hclean : Clean c.script)
    (hm : MemOk c) (hc : c.freed = false) (hs : c.client.state.Sending) (hstep : Step c c') :
    Replying bytes c' := by
  have hon := h.sendsOn hok hclean hm hc hs hstep
  have hverb : c'.client.requestVerb = c.client.requestVerb :=
    (hstep.sameHeader hs.ne.1).2.verb
  cases h with
  | line hr hlast htext => exact .line (hon.replies.trans hr) (hverb ▸ hlast) htext
  | file hsent hbody htext =>
    exact .file (hsent.step hok.reply hc hbody (Nat.le_refl _) hstep) (hon.disk ▸ hbody) htext
  | names hsent hnames htext =>
    exact .names (hsent.step hok.reply hc (fun _ vs hvs => hvs.unique hnames) hon.replies hstep)
      (hon.files ▸ hnames) htext

/-- The reply that a closed connection has sent. -/
theorem Replying.sent (h : Replying bytes c) (hr : ReplyOk c.toConn)
    (hs : c.client.state = .done) : c.sent = bytes := by
  cases h with
  | @line st msg hreplies hlast htext =>
    have hget : ∀ {v payload}, PayloadOk c.toConn v payload → (v = .get ∨ v = .list) → False := by
      rintro v payload ⟨hv, ⟨msg', hreplies'⟩, -⟩ hv'
      obtain ⟨rfl, -⟩ := Prod.mk.inj (List.singleton_inj.mp (hreplies.symm.trans hreplies'))
      rcases hv' with rfl | rfl
      · exact (hlast rfl).1 hv
      · exact (hlast rfl).2 hv
    rcases hr.done hs with ⟨rs, st', msg', hline⟩ | ⟨bs, hpay, -⟩ | ⟨buffer, hpay⟩
    · obtain ⟨hnil, heq⟩ := singleton_eq_concat (hreplies.symm.trans hline.replies)
      obtain ⟨rfl, rfl⟩ := Prod.mk.inj heq
      rw [hline.sent, hnil, htext]
      rfl
    · exact (hget hpay (.inl rfl)).elim
    · exact (hget hpay (.inr rfl)).elim
  | file hsent _ htext => exact (hsent.done hs).trans htext.symm
  | names hsent _ htext => exact (hsent.done hs).trans htext.symm


/-! ### Asking -/

namespace Unanswered

theorem quiet (h : Unanswered bytes c) (hq : Quiet c c') : Unanswered bytes c' := by
  have hrec := hq.sameUpload.received
  cases hq with
  | read => exact ⟨h.live, sysRead_stream _ h.stream, h.size⟩
  | write =>
    refine ⟨h.live, ?_, h.size⟩
    rw [hrec, Ctx.sysWrite_script, Script.write_rx]
    exact h.stream
  | pread =>
    refine ⟨h.live, ?_, h.size⟩
    rw [hrec, Ctx.sysPread_script, Script.file_rx]
    exact h.stream

theorem receive (h : Unanswered bytes c) (hr : Receive c c') : Unanswered bytes c' := by
  cases hr with
  | header => exact ⟨h.live, sysRead_stream 1 h.stream, h.size⟩
  | size hs hlen hr =>
    refine ⟨h.live, sysRead_stream _ h.stream, pokeSize_lt ?_⟩
    have hle := length_read_le (s := c.script) hr
    simp only [Ctx.sysRead_client, sizeLen] at *
    omega
  | @body bs f =>
    have hrx : (writeBody c f bs).2.script.rx = (c.sysRead (bodyRoom c.client)).2.script.rx :=
      Script.file_rx _
    refine ⟨h.live, ?_, h.size⟩
    rw [Ctx.setClient_script, hrx]
    exact sysRead_stream _ h.stream

theorem begins (h : Unanswered bytes c) (hb : Begin c c') : Unanswered bytes c' := by
  cases hb with
  | @put w hl =>
    refine ⟨h.live, ?_, h.size⟩
    rw [takeLine_received]
    exact sysRead_stream 1 h.stream
  | @upload f =>
    have hrx : (setState (openUploadFile c).2 .recvPutData).script.rx = c.script.rx :=
      Script.file_rx _
    refine ⟨h.live, ?_, h.size⟩
    rw [openUploadFile_received, hrx]
    exact h.stream

end Unanswered

section Lines

variable (hok : ConnOk c) (harr : Unanswered bytes c)
include hok harr

/-- A complete line stands at the start of what was sent. -/
theorem LineRead.isPrefix (hl : LineRead c q) :
    c.client.headerBuf ++ [newline] <+: bytes ∧
      c.client.headerBuf.length < maxHeaderLen - 1 := by
  obtain ⟨bs, hr⟩ := hl.read
  have hr := sysRead_one hr
  have hafter := sysRead_stream 1 harr.stream
  rw [received_sysRead_bytes hr, (hok.request.header hl.fault hl.state).2] at hafter
  exact ⟨⟨_, hafter⟩, hok.request.len ▸ hl.room⟩

theorem LineRead.asks (hsends : op.Sends bytes) (hl : LineRead c q) : op.Asks q :=
  hsends.asks (hl.isPrefix hok harr).1 (hl.isPrefix hok harr).2 hl.request

/-- It is the line that was sent. -/
theorem LineRead.eq_line (hl : LineRead c q) {line : List Byte} (hn : newline ∉ line)
    (h0 : 0 ∉ line) (hpre : line ++ [newline] <+: bytes) : c.client.headerBuf = line := by
  have hnone := (hok.request.header hl.fault hl.state).1
  obtain ⟨hpre', -⟩ := hl.isPrefix hok harr
  have hlen : ∀ {a b : List Byte}, a ++ [newline] <+: bytes → b ++ [newline] <+: bytes →
      a.length < b.length → a ++ [newline] <+: b := by
    intro a b ha hb hlt
    refine List.prefix_of_prefix_length_le ha ((List.prefix_append ..).trans hb) ?_
    rw [List.length_append, List.length_singleton]
    exact hlt
  -- a shorter one would put a newline into the line, a longer one was complete before
  rcases Nat.lt_trichotomy c.client.headerBuf.length line.length with hlt | heq | hgt
  · have hin := (hlen hpre' hpre hlt).subset
    exact absurd (hin (List.mem_append_right _ (List.mem_singleton_self _))) hn
  · exact (List.prefix_of_prefix_length_le ((List.prefix_append ..).trans hpre')
      ((List.prefix_append ..).trans hpre) heq.le).eq_of_length heq
  · obtain ⟨more, hmore⟩ := hlen hpre hpre' hgt
    rw [← hmore, requestOf_append (requestOf_line hn h0) more] at hnone
    cases hnone

end Lines

/-- The path of a name leads to its entry. -/
theorem takeLine_target (hq : q.name? = some w) (hw : Nameable w) :
    c.disk.tree.resolve (takeLine c q).filepath = .entry (c.disk.tree.temp, w) := by
  have hname : (takeLine c q).client.filename = w := by
    simp [takeLine, noteRequest, hq, List.take_of_length_le hw.length]
  rw [filepath_of_length_le (by rw [hname]; exact hw.length), hname]
  exact c.disk.tree.resolve_entryName hw.entry

/-- A missing file is what the map does not know. -/
theorem Represents.link_eq_none {g : Globals} (h : Represents m g) :
    (g.disk.slot (g.disk.tree.temp, w)).link = none ↔ w ∉ m.keys := by
  rw [← Disk.lookup_eq_none, h.files, OrderedMap.get_eq_none]

/-- `delete_request` finds the names of the map. -/
theorem Represents.search {g : Globals} (h : Represents m g) (hw : Nameable w) :
    searchName (w.take 255) 0 g.serverFiles.contents
      = if w ∈ m.keys then .found (m.keys.idxOf w) else .absent := by
  rw [List.take_of_length_le hw.length, h.names, searchName_map, Nat.zero_add]

/-- A file that the map knows is there to be unlinked. -/
theorem Represents.unlinks (h : Represents m c.toGlobals) (hw : Nameable w) (hin : w ∈ m.keys)
    (hclean : Clean (takeLine c (.delete w)).script) :
    ((takeLine c (.delete w)).sysUnlink (takeLine c (.delete w)).filepath).1 = true := by
  have htarget := takeLine_target (c := c) (q := .delete w) rfl hw
  rcases (takeLine c (.delete w)).sysUnlink_cases (takeLine c (.delete w)).filepath with
    ⟨-, -, hfail⟩ | ⟨hunlink, -⟩
  · rw [hclean.file_eq] at hfail
    cases hfail
  · rw [hunlink, Disk.unlink_fst, Disk.read_entry (takeLine c (.delete w)).disk htarget,
      Option.isSome_iff_ne_none]
    exact fun hnone => h.link_eq_none.mp ((Disk.lookup_eq_none _).mp hnone) hin

/-- Without errors `open` finds what is linked at the entry. -/
theorem openDownload_eq {l : Loc} (hclean : Clean c.script)
    (htarget : c.disk.tree.resolve c.filepath = .entry l) :
    (openDownload c).1 = (c.disk.slot l).link.map (.file l) := by
  simp only [openDownload, Ctx.sysOpenRead, hclean.file_eq, Disk.openRead, htarget,
    reduceCtorEq, if_false]

/-- The short reply is chosen first. -/
theorem Choose.line (h : Choose c c' st msg) (hok : ConnOk c) (hm : MemOk c)
    (hlast : st = .ok → c'.client.requestVerb ≠ .get ∧ c'.client.requestVerb ≠ .list) :
    Replying (responseText st msg) (fillResponse c' st msg) := by
  refine .line ?_ hlast rfl
  have hlog : (fillResponse c' st msg).log = c'.log ++ [.reply st msg] := rfl
  rw [Conn.replies_of_log hlog, (h.first hok.reply hm).1]
  rfl

/-- A name is deleted from list, directory and map. -/
theorem Represents.deleted {g g' : Globals} (h : Represents m g) {p : Path}
    (hp : g.disk.tree.resolve p = .entry (g.disk.tree.temp, w))
    (hnames : Names g'.serverFiles (m.keys.erase w)) (hdisk : g'.disk = (g.disk.unlink p).2) :
    Represents (m.delete w) g' := by
  have hdel := OrderedMap.keys_delete (w := w) h.nodup
  refine ⟨hdel ▸ hnames, hdel ▸ h.nodup.erase w, fun v => ?_⟩
  rw [hdisk, Disk.unlink_tree, OrderedMap.get_delete]
  split_ifs with hv
  · rw [hv]
    exact (Disk.lookup_eq_none _).mpr (g.disk.unlink_link hp)
  · refine (Disk.lookup_congr (g.disk.unlink_slot_of_ne fun heq => hv ?_)).trans (h.files v)
    exact (Prod.mk.inj (Target.entry.inj (hp.symm.trans heq))).2.symm

/-- **The reply to a request**, and what it leaves, are what the map gives. -/
theorem Choose.serves (h : Choose c c' st msg) (hs : c.client.state = .recvHeader)
    (hok : ConnOk c) (hf : c.fault = false) (hclean : Clean c.script) (hm : MemOk c)
    (harr : Unanswered bytes c) (hsends : op.Sends bytes) (hrep : Represents m c.toGlobals) :
    Replying (m.serve op).1 (fillResponse c' st msg) ∧
      Represents (m.serve op).2 (fillResponse c' st msg).toGlobals := by
  have hline := @Choose.line _ _ _ _ h hok hm
  have hread : ∀ q, Clean (takeLine c q).script := fun _ => (hclean.read 1).1
  cases h with
  | bad hl =>
    cases hl.asks hok harr hsends
    exact ⟨hline (by simp), hrep⟩
  | tooLong _ hlen =>
    -- 1023 bytes without a newline
    obtain ⟨hnone, hrec⟩ := hok.request.header hf hs
    rw [hok.request.len] at hlen
    have hfull : c.client.headerBuf = bytes.take (maxHeaderLen - 1) := by
      have hpre : c.client.headerBuf <+: bytes := ⟨_, hrec ▸ harr.stream⟩
      rw [List.prefix_iff_eq_take.mp hpre, le_antisymm hok.request.room hlen]
    obtain ⟨rfl, -⟩ := hsends.bad_of_none (hfull ▸ hnone)
    exact ⟨hline (by simp), hrep⟩
  | list hl =>
    cases hl.asks hok harr hsends
    have hch : Choose c (takeLine c .list) .ok [] := .list hl
    have hsent : NamesSent (fillResponse (takeLine c .list) .ok []).toConn m.keys :=
      (hch.namesSent hok rfl (hch.first hok.reply hm).1).2
    exact ⟨.names hsent hrep.names rfl, hrep⟩
  | @deleteAbsent w hl hfind =>
    cases hl.asks hok harr hsends
    cases hsends with
    | delete hw =>
      rw [hrep.search hw] at hfind
      split_ifs at hfind with hout
      simp only [Store.serve, if_neg hout]
      exact ⟨hline (by simp), hrep.congr rfl rfl⟩
  | @deleteFailed w i hl hfind hu =>
    exfalso
    cases hl.asks hok harr hsends
    cases hsends with
    | delete hw =>
      rw [hrep.search hw] at hfind
      split_ifs at hfind with hin
      cases hu.symm.trans (hrep.unlinks hw hin (hread _))
  | @deleted w i hl hfind hu =>
    cases hl.asks hok harr hsends
    cases hsends with
    | delete hw =>
      have htarget := takeLine_target (c := c) (q := .delete w) rfl hw
      rw [hrep.search hw] at hfind
      split_ifs at hfind with hin
      simp only [Store.serve, if_pos hin]
      refine ⟨hline fun _ => ?_, hrep.deleted (p := (takeLine c (.delete w)).filepath)
        htarget ?_ ?_⟩
      · rw [removeFileFromList_client]
        exact ⟨by simp [takeLine, noteRequest, Request.verb],
          by simp [takeLine, noteRequest, Request.verb]⟩
      · rw [List.take_of_length_le hw.length]
        exact (names_removeFileFromList (c := ((takeLine c (.delete w)).sysUnlink
          (takeLine c (.delete w)).filepath).2) hrep.names w).1
      · exact (removeFileFromList_disk _ _).trans (Ctx.sysUnlink_true_disk _ _ hu).2
  | @getMissing w hl ho =>
    cases hl.asks hok harr hsends
    cases hsends with
    | get hw =>
      have htarget := takeLine_target (c := c) (q := .get w) rfl hw
      rw [openDownload_eq (hread _) htarget] at ho
      have hnone : m.get w = none :=
        OrderedMap.get_eq_none.mpr (hrep.link_eq_none.mp (Option.map_eq_none_iff.mp ho))
      simp only [Store.serve, hnone]
      exact ⟨hline (by simp), hrep⟩
  | @getFailed w f hl ho hstat =>
    have hfile := (hread (.get w)).file.file_eq
    simp [Ctx.sysFstat, openDownload, Ctx.sysOpenRead, hfile] at hstat
  | @getOpened w f size hl ho hstat =>
    have hch : Choose c _ .ok [] := .getOpened hl ho hstat
    cases hl.asks hok harr hsends
    cases hsends with
    | get hw =>
      have htarget := takeLine_target (c := c) (q := .get w) rfl hw
      have ho' := ho
      rw [openDownload_eq (hread _) htarget] at ho'
      obtain ⟨gen, hlink, rfl⟩ := Option.map_eq_some_iff.mp ho'
      have hsome : m.get w = some (c.disk.content (c.disk.tree.temp, w) gen) :=
        (hrep.files w).symm.trans (Disk.lookup_of_link _ hlink)
      -- the file that is sent is the one that the map knows
      obtain ⟨f, hsent⟩ := hch.fileSent hok rfl rfl (hch.first hok.reply hm).1
      obtain rfl := Option.some.inj (ho.symm.trans (hsent.fd harr.live))
      simp only [Store.serve, hsome]
      exact ⟨.file hsent rfl rfl, hrep⟩
  | sizeCut hs' | openFailed hs' | bodyCut hs' | noFile hs' | bodyFailed hs' | extraByte hs'
  | accepted hs' | listNoMemory hs' => cases hs.symm.trans hs'

/-- A request that is not complete goes on, or is served. -/
theorem Phase.of_asking (hs : c.client.state = .recvHeader) (harr : Unanswered bytes c)
    (hrep : Represents m c.toGlobals) (hok : ConnOk c) (hf : c.fault = false)
    (hclean : Clean c.script) (hm : MemOk c) (hsends : op.Sends bytes) (hstep : Step c c') :
    Phase m op bytes c' := by
  cases hstep with
  | quiet hq =>
    have hsame : c'.client = c.client ∧ c'.toGlobals = c.toGlobals := by
      cases hq <;> exact ⟨rfl, rfl⟩
    exact .asking (hsame.1 ▸ hs) (harr.quiet hq) (hsame.2 ▸ hrep)
  | receive hr =>
    have harr' := harr.receive hr
    cases hr with
    | header => exact .asking hs harr' hrep
    | size hs' => cases hs'.symm.trans hs
    | body hs' => cases hs'.symm.trans hs
  | begin hb =>
    have harr' := harr.begins hb
    cases hb with
    | @put w hl =>
      cases hl.asks hok harr hsends with
      | put _ body =>
        cases hsends with
        | put hw =>
          obtain ⟨hn, h0, -⟩ := hw.text (v := .put) (.inr (.inl rfl))
          have hbuf := hl.eq_line hok harr hn h0 (List.prefix_append ..)
          refine .uploading rfl (.inl rfl) harr'
            ⟨?_, hrep.names, hrep.nodup, fun v _ => hrep.files v⟩
          exact congrArg (· ++ [newline]) hbuf
    | upload hs' => cases hs'.symm.trans hs
  | choose hch =>
    obtain ⟨hreply, hrep'⟩ := hch.serves hs hok hf hclean hm harr hsends hrep
    exact .replying (.inl (fillResponse_sending _ _ _))
      (fun hfreed => (by cases (hch.freed.trans harr.live).symm.trans hfreed)) hreply hrep'
  | send hsend => exact absurd hs hsend.of_sending.ne.1
  | close hcl =>
    exfalso
    cases hcl with
    | header _ hlen hr =>
      -- the stream does not end inside a line
      obtain ⟨hnone, hrec⟩ := hok.request.header hf hs
      have hall := stream_ended hclean Nat.one_pos hr harr.stream
      rw [hrec] at hall
      rw [hok.request.len, hall] at hlen
      rw [hall] at hnone
      obtain ⟨-, hle⟩ := hsends.bad_of_none (by rwa [List.take_of_length_le hlen.le])
      exact absurd hlen (Nat.not_lt_of_le hle)
    | line hs' => rcases hs' with hs' | hs' <;> cases hs'.symm.trans hs
    | replied hs' => rcases hs' with hs' | ⟨hs', -⟩ <;> cases hs'.symm.trans hs
    | size hs' | noFile hs' | pread hs' | data hs' | got hs' | list hs' | listed hs' =>
      cases hs'.symm.trans hs
  | fault hl hfind =>
    rw [hrep.names, searchName_map] at hfind
    split_ifs at hfind

/-! ### Uploading -/

namespace Putting

theorem congr (h : Putting m w c) (hbuf : c'.client.headerBuf = c.client.headerBuf)
    (hfiles : c'.serverFiles = c.serverFiles) (htree : c'.disk.tree = c.disk.tree)
    (hslot : ∀ l, l ≠ (c.disk.tree.temp, w) → c'.disk.slot l = c.disk.slot l) :
    Putting m w c' where
  line := hbuf.trans h.line
  names := hfiles ▸ h.names
  nodup := h.nodup
  others := fun v hv => by
    rw [htree]
    have hne : (c.disk.tree.temp, v) ≠ (c.disk.tree.temp, w) := fun heq => hv (Prod.mk.inj heq).2
    exact (Disk.lookup_congr (hslot _ hne)).trans (h.others v hv)

theorem filename (h : Putting m w c) (hw : Nameable w) (hok : ConnOk c) :
    c.client.filename = w := by
  obtain ⟨hn, h0, -⟩ := hw.text (v := .put) (.inr (.inl rfl))
  have hreq : requestOf (nameLine (ascii "PUT") w ++ [newline])
      = some (requestOfLine (nameLine (ascii "PUT") w)) := requestOf_line hn h0
  rw [hok.request.name, h.line, hreq, requestOfLine_put]
  exact List.take_of_length_le hw.length

theorem target (h : Putting m w c) (hw : Nameable w) (hok : ConnOk c) :
    c.disk.tree.resolve c.filepath = .entry (c.disk.tree.temp, w) := by
  rw [hok.request.toHeaderOk.filepath_eq, h.filename hw hok]
  exact c.disk.tree.resolve_entryName hw.entry

/-- The size field was the length of the body, and the rest of the body is to come. -/
theorem content (h : Putting m w c) {content part : List Byte} (hsize : content.length < 2 ^ 64)
    (harr : Unanswered (nameLine (ascii "PUT") w ++ [newline] ++
      (sizeBytes content.length ++ content)) c) (hpart : ReceivedBody c.toConn part) :
    c.client.expectedSize = content.length ∧ part ++ incoming c.script.rx = content := by
  have hstream := harr.stream
  rw [hpart, h.line] at hstream
  simp only [List.append_assoc, List.append_cancel_left_eq] at hstream
  obtain ⟨hfield, hrest⟩ := List.append_inj hstream (by simp)
  refine ⟨?_, hrest⟩
  rw [← ofLeBytes_sizeBytes harr.size, hfield, ofLeBytes_sizeBytes hsize]

/-- Where as many bytes came as the body has, nothing is left to come. -/
theorem nothing_left (h : Putting m w c) {content part : List Byte}
    (hsize : content.length < 2 ^ 64)
    (harr : Unanswered (nameLine (ascii "PUT") w ++ [newline] ++
      (sizeBytes content.length ++ content)) c) (hpart : ReceivedBody c.toConn part)
    (hlen : part.length = content.length) : incoming c.script.rx = [] := by
  have hrest := congrArg List.length (h.content hsize harr hpart).2
  rw [List.length_append] at hrest
  exact List.length_eq_zero_iff.mp (by omega)

/-- The whole body is in the file of an accepted upload. -/
theorem accepted (h : Putting m w c) (hs : c.client.state = .recvPutData)
    (hlen : c.client.bytesTransferred = c.client.expectedSize)
    (hr : ∀ b bs, (readExtra c).1 ≠ .bytes (b :: bs)) (hok : ConnOk c) (hfill : Filled c)
    (hclean : Clean c.script) (hm : MemOk c) {content : List Byte} (hw : Nameable w)
    (hsize : content.length < 2 ^ 64)
    (harr : Unanswered (nameLine (ascii "PUT") w ++ [newline] ++
      (sizeBytes content.length ++ content)) c) :
    Replying okLine (fillResponse (acceptUpload c) .ok []) ∧
      Represents (m.put w content) (fillResponse (acceptUpload c) .ok []).toGlobals := by
  obtain ⟨l, gen, hu, hlink, hpart, hpartLen⟩ := hfill.data harr.live hs
  obtain rfl := Target.entry.inj (hu.target.symm.trans (h.target hw hok))
  obtain ⟨hexp, hrest⟩ := h.content hsize harr hpart
  rw [h.nothing_left hsize harr hpart (by omega), List.append_nil] at hrest
  have hverb := (hok.upload.data hs).2.2.1
  have hline := (Choose.accepted hs hlen hr).line hok hm fun _ => by
    rw [acceptUpload_client, hverb]
    exact ⟨by decide, by decide⟩
  have hnames := (names_addFileToList (c := (readExtra c).2.note (.accept c.client.filename))
    h.names (hclean.read 1).1.mem w).1
  have hput := OrderedMap.keys_put (m := m) (w := w) (x := content)
  have hdisk : (fillResponse (acceptUpload c) .ok []).disk = c.disk := addFileToList_disk _ _
  refine ⟨hline, ?_, ?_, fun v => ?_⟩
  · rw [hput]
    change Names (addFileToList _ c.client.filename).serverFiles _
    rw [h.filename hw hok]
    exact hnames
  · rw [hput]
    split_ifs with hin
    · exact h.nodup
    · exact List.nodup_append.mpr ⟨h.nodup, List.nodup_singleton w,
        fun a ha b hb hab => hin (List.mem_singleton.mp hb ▸ hab ▸ ha)⟩
  · rw [hdisk, OrderedMap.get_put]
    split_ifs with hv
    · rw [hv, Disk.lookup_of_link _ hlink, hrest]
    · exact h.others v hv

/-- **The upload is accepted**, since nothing fails. -/
theorem serves (h : Putting m w c) (hch : Choose c c' st msg)
    (hs : c.client.state = .recvPutSize ∨ c.client.state = .recvPutData) (hok : ConnOk c)
    (hh : HandleOk c) (hfill : Filled c) (hclean : Clean c.script) (hm : MemOk c)
    {content : List Byte} (hw : Nameable w) (hsize : content.length < 2 ^ 64)
    (harr : Unanswered (nameLine (ascii "PUT") w ++ [newline] ++
      (sizeBytes content.length ++ content)) c) :
    Replying okLine (fillResponse c' st msg) ∧
      Represents (m.put w content) (fillResponse c' st msg).toGlobals := by
  have htarget := h.target hw hok
  cases hch with
  | tooLong hs' => rcases hs with hs | hs <;> cases hs.symm.trans hs'
  | bad hl | list hl | deleteAbsent hl | deleteFailed hl | deleted hl | getMissing hl
  | getFailed hl | getOpened hl => rcases hs with hs | hs <;> cases hs.symm.trans hl.state
  | listNoMemory hs' => rcases hs with hs | hs <;> cases hs.symm.trans hs'
  | sizeCut hs' hlen hr =>
    -- the stream does not end inside the size field
    exfalso
    have hall := stream_ended hclean (by omega) hr harr.stream
    obtain ⟨-, -, -, -, hrec⟩ := hok.upload.size hs'
    have hlength := congrArg List.length (hrec.symm.trans hall)
    have hle := List.length_take_le c.client.bytesTransferred (sizeBytes c.client.expectedSize)
    rw [h.line] at hlength
    simp only [List.length_append, length_sizeBytes, sizeLen] at hlength hlen hle
    omega
  | openFailed hs' hlen ho =>
    -- `O_CREAT` opens every entry
    exfalso
    rcases (c.setClient fun k => { k with bytesTransferred := 0 }).sysOpenWrite_cases c.filepath
      with ⟨-, -, hfail⟩ | ⟨hopen, -⟩
    · rw [Ctx.setClient_script, hclean.file_eq] at hfail
      cases hfail
    · exact (c.disk.openWrite_eq_none.mp (hopen.symm.trans ho)) _ htarget
  | bodyCut hs' hlen hr =>
    -- nor inside the body
    exfalso
    obtain ⟨-, -, -, -, part, hpart, hpartLen⟩ := hok.upload.data hs'
    obtain ⟨hexp, hrest⟩ := h.content hsize harr hpart
    have hroom : 0 < bodyRoom c.client := by simp only [bodyRoom, bufferSize]; omega
    have hall := stream_ended hclean hroom hr harr.stream
    have hnil := harr.stream
    rw [hall] at hnil
    rw [List.append_right_eq_self.mp hnil, List.append_nil] at hrest
    rw [← hpartLen, hexp, hrest] at hlen
    exact absurd hlen (Nat.lt_irrefl _)
  | noFile hs' hlen hr hnone =>
    obtain ⟨l, gen, hu⟩ := hh harr.live hs'
    cases hnone.symm.trans hu.fd
  | bodyFailed hs' hlen hr hne hfd hwrite =>
    refine absurd ?_ hwrite
    simp only [writeBody, Ctx.sysPwrite, Ctx.sysRead_script, (hclean.read _).1.file_eq]
  | extraByte hs' hlen hr =>
    -- nothing is sent behind the body
    exfalso
    obtain ⟨-, -, -, -, part, hpart, hpartLen⟩ := hok.upload.data hs'
    have hexp := (h.content hsize harr hpart).1
    have hnil := h.nothing_left hsize harr hpart (by omega)
    have hfound := incoming_read c.script 1
    have hr' : (c.script.read 1).1 = _ := hr
    rw [hnil, hr'] at hfound
    cases hfound
  | accepted hs' hlen hr => exact h.accepted hs' hlen hr hok hfill hclean hm hw hsize harr

end Putting

/-- An upload goes on, or is accepted. -/
theorem Phase.of_uploading {content : List Byte} (hsends : (Op.put w content).Sends bytes)
    (hs : c.client.state = .recvPutSize ∨ c.client.state = .recvPutData)
    (harr : Unanswered bytes c) (hput : Putting m w c) (hok : ConnOk c) (hh : HandleOk c)
    (hfill : Filled c) (hclean : Clean c.script) (hm : MemOk c) (hstep : Step c c') :
    Phase m (.put w content) bytes c' := by
  have hno : c.client.state ≠ .recvHeader ∧ ¬ c.client.state.Sending := by
    rcases hs with hs | hs <;> rw [hs] <;> exact ⟨by simp, by simp [ConnState.Sending]⟩
  cases hsends with
  | put hw hsize =>
    have htarget := hput.target hw hok
    cases hstep with
    | quiet hq =>
      have hsame : c'.client = c.client ∧ c'.toGlobals = c.toGlobals := by
        cases hq <;> exact ⟨rfl, rfl⟩
      exact .uploading rfl (hsame.1 ▸ hs) (harr.quiet hq) (hput.congr (by rw [hsame.1])
        (by rw [hsame.2]) (by rw [hsame.2]) fun _ _ => by rw [hsame.2])
    | receive hr =>
      have harr' := harr.receive hr
      cases hr with
      | header _ hs' => exact absurd hs' hno.1
      | size => exact .uploading rfl hs harr' (hput.congr rfl rfl rfl fun _ _ => rfl)
      | @body bs f hs' hlen hr hne hfd hwrite =>
        -- the chunk goes to the file of `w` and no other
        obtain ⟨l, gen, hu⟩ := hh harr.live hs'
        obtain rfl := Option.some.inj (hfd.symm.trans hu.fd)
        obtain rfl := Target.entry.inj (hu.target.symm.trans htarget)
        have hdisk : (writeBody c (.file (c.disk.tree.temp, w) gen) bs).2.disk
            = c.disk.pwrite (.file (c.disk.tree.temp, w) gen) bs c.client.bytesTransferred :=
          Ctx.sysPwrite_disk_full (c.sysRead _).2 _ _ _ hwrite
        refine .uploading rfl hs harr' (hput.congr rfl rfl ?_ fun l hl => ?_)
        · rw [Ctx.setClient_toGlobals, hdisk, Disk.pwrite_tree]
        · rw [Ctx.setClient_toGlobals, hdisk]
          exact c.disk.pwrite_slot_of_ne gen bs _ hl
    | begin hb =>
      have harr' := harr.begins hb
      cases hb with
      | put hl => exact absurd hl.state hno.1
      | @upload f hs' hlen ho =>
        have hdisk := (Ctx.sysOpenWrite_some_disk (c.setClient _) c.filepath ho).2
        refine .uploading rfl (.inr rfl) harr' (hput.congr rfl rfl ?_ fun l hl => ?_)
        · exact (Ctx.sysOpenWrite_grows (c.setClient _) _).tree
        · refine (congrArg (fun k : Disk => k.slot l) hdisk).trans ?_
          refine c.disk.openWrite_slot_of_ne fun heq => hl ?_
          exact (Target.entry.inj (htarget.symm.trans heq)).symm
    | choose hch =>
      obtain ⟨hreply, hrep⟩ := hput.serves hch hs hok hh hfill hclean hm hw hsize harr
      exact .replying (.inl (fillResponse_sending _ _ _))
        (fun hfreed => (by cases (hch.freed.trans harr.live).symm.trans hfreed)) hreply hrep
    | send hsend => exact absurd hsend.of_sending hno.2
    | close hcl => exact (hcl.starts.elim hno.1 hno.2).elim
    | fault hl => exact absurd hl.state hno.1

/-! ### A connection -/

/-- **One step of a connection** keeps it in the service of its request. -/
theorem Serving.step (h : Serving m op bytes c) (hsends : op.Sends bytes) (hc : c.freed = false)
    (hstep : Step c c') : Serving m op bytes c' := by
  have hm : MemOk c := h.memOk
  refine ⟨connOk_stable.step c c' hc h.conn hstep, h.handle.step hc hstep,
    h.filled.step h.conn hc hstep, hstep.clean h.clean, (hstep.fault_eq hm).trans h.fault, ?_⟩
  cases h.phase with
  | asking hs harr hrep =>
    exact .of_asking hs harr hrep h.conn h.fault h.clean hm hsends hstep
  | uploading hop hs harr hput =>
    subst hop
    exact .of_uploading hsends hs harr hput h.conn h.handle h.filled h.clean hm hstep
  | replying hs hdone hreply hrep =>
    have hsending : c.client.state.Sending := hs.resolve_right fun hdone => by
      cases hc.symm.trans (h.conn.done hdone)
    have hon := hreply.sendsOn h.conn h.clean hm hc hsending hstep
    exact .replying hon.state hon.done (hreply.step h.conn h.clean hm hc hsending hstep)
      (hrep.congr hon.files hon.disk)

theorem Serving.steps (h : Serving m op bytes c) (hsends : op.Sends bytes) (hsteps : Steps c c') :
    Serving m op bytes c' :=
  Chain.invariant (P := Serving m op bytes)
    (fun _ _ hxy hx => hx.step hsends hxy.1 hxy.2) hsteps h

end Steps

/-! ### One connection after the other -/

/-- A connection, from `accept` on. -/
structure Visit where
  fd : Int
  script : Script
  events : List Events
  op : Op

namespace Visit

/-- The turns of the server for a connection. -/
def actions (v : Visit) : List Action := .accept v.fd v.script :: v.events.map (.event v.fd)

/-- The client sends its request, and nothing fails. -/
structure Ok (v : Visit) : Prop where
  clean : Clean v.script
  sends : v.op.Sends (incoming v.script.rx)
  events : ∀ ev ∈ v.events, ev.One ∧ ev.error = false

end Visit

/-- The server after these connections. -/
def Server.serveVisits (s : Server) (vs : List Visit) : Server := s.run (vs.flatMap Visit.actions)

/-- All connections are closed. -/
def Server.Closed (s : Server) : Prop := ∀ conn ∈ s.conns, conn.freed = true

instance (s : Server) : Decidable s.Closed :=
  inferInstanceAs (Decidable (∀ conn ∈ s.conns, conn.freed = true))

/-- Each connection is closed before the next one comes. -/
def InTurn (s : Server) (vs : List Visit) : Prop := ∀ pre, pre <+: vs → (s.serveVisits pre).Closed

/-- The server holds the map `m`, and no connection is open. -/
structure Stores (m : Store) (s : Server) : Prop where
  lives : Lives s
  closed : s.Closed
  represents : Represents m s.toGlobals

/-- A connection is served; those before it are closed. -/
structure Attending (m : Store) (op : Op) (bytes : List Byte) (old : List Conn) (s : Server) :
    Prop where
  lives : Lives s
  closed : ∀ conn ∈ old, conn.freed = true
  serving : ∃ conn, s.conns = old ++ [conn] ∧ Serving m op bytes (s.ctx conn)

section Runs

variable {m : Store} {op : Op} {bytes : List Byte} {old : List Conn} {s : Server} {v : Visit}
  {vs : List Visit}

/-- The connection is accepted. -/
theorem Stores.accept (h : Stores m s) {fd : Int} {script : Script} (hclean : Clean script)
    (hbytes : incoming script.rx = bytes) :
    Attending m op bytes s.conns (s.act (.accept fd script)) := by
  have hopen : ¬ s.fdOpen fd := by
    rintro ⟨conn, hmem, hlive, -⟩
    cases hlive.symm.trans (h.closed conn hmem)
  have hact : ∃ d, s.act (.accept fd script)
      = { s with fdToClient := d, conns := s.conns ++ [newConn fd script] } := by
    unfold Server.act
    rw [if_neg (by simp [h.lives.fault])]
    dsimp only
    unfold acceptConnection
    rw [if_neg hopen]
    simp only [hclean.alloc_eq, Bool.true_eq_false, if_false, ite_self]
    exact ⟨_, rfl⟩
  have hlives : Lives (s.act (.accept fd script)) := h.lives.act hclean.mem
  obtain ⟨d, hd⟩ := hact
  rw [hd] at hlives ⊢
  refine ⟨hlives, h.closed, newConn fd script, rfl, ?_⟩
  refine ⟨connOk_stable.new fd script _, fun _ hs => (by cases hs),
    .of_not_accepted (fun hs => by cases hs) rfl, hclean, hlives.fault, ?_⟩
  exact .asking rfl ⟨rfl, hbytes, Nat.two_pow_pos _⟩ (h.represents.congr rfl rfl)

/-- **One event** of the connection that is served. -/
theorem Attending.act (h : Attending m op bytes old s) (hsends : op.Sends bytes) (fd : Int)
    {ev : Events} (hone : ev.One) (hev : ev.error = false) :
    Attending m op bytes old (s.act (.event fd ev)) := by
  obtain ⟨conn, hconns, hserving⟩ := h.serving
  have hlives : Lives (s.act (.event fd ev)) := h.lives.act hone
  have ht := Server.act_turn h.lives.map (.event fd ev)
  generalize s.act (.event fd ev) = s' at hlives ht
  cases ht with
  | idle => exact h
  | @handle _ _ i u c hget hi hlive hsteps =>
    -- only the last connection is open
    obtain ⟨rfl, rfl⟩ : i = old.length ∧ u = conn := by
      rw [hconns] at hi
      rcases Nat.lt_trichotomy i old.length with hlt | rfl | hgt
      · rw [List.getElem?_append_left hlt] at hi
        cases hlive.symm.trans (h.closed u (List.mem_of_getElem? hi))
      · rw [List.getElem?_concat_length] at hi
        exact ⟨rfl, (Option.some.inj hi).symm⟩
      · have hnone : (old ++ [conn])[i]? = none :=
          List.getElem?_eq_none (by rw [List.length_append]; exact hgt)
        cases hnone.symm.trans hi
    -- the map and the list are shared, the connections before it stay as they are
    refine ⟨hlives, h.closed, c.toConn, ?_, hserving.steps hsends hsteps⟩
    change s.conns.set old.length c.toConn = _
    rw [hconns, List.set_append_right _ _ (Nat.le_refl _), Nat.sub_self]
    rfl
  | error hev' => cases hev.symm.trans hev'
  | useAfterFree hboth => exact absurd hboth hone

theorem Attending.run (h : Attending m op bytes old s) (hsends : op.Sends bytes) (fd : Int)
    {events : List Events} (hevents : ∀ ev ∈ events, ev.One ∧ ev.error = false) :
    Attending m op bytes old (s.run (events.map (.event fd))) := by
  induction events generalizing s with
  | nil => exact h
  | cons ev events ih =>
    have hev := hevents ev (List.mem_cons_self ..)
    exact ih (h.act hsends fd hev.1 hev.2) fun ev' hmem => hevents ev' (List.mem_cons_of_mem _ hmem)

/-- The connection is closed: its reply is sent, and the server holds the next map. -/
theorem Attending.close (h : Attending m op bytes old s) (hclosed : s.Closed) :
    Stores (m.serve op).2 s ∧ s.conns.map Conn.sent = old.map Conn.sent ++ [(m.serve op).1] := by
  obtain ⟨conn, hconns, hserving⟩ := h.serving
  have hfreed : conn.freed = true :=
    hclosed conn (hconns ▸ List.mem_append_right _ (List.mem_singleton_self _))
  cases hserving.phase with
  | asking _ harr => cases hfreed.symm.trans harr.live
  | uploading _ _ harr => cases hfreed.symm.trans harr.live
  | replying _ hdone hreply hrep =>
    refine ⟨⟨h.lives, hclosed, hrep⟩, ?_⟩
    rw [hconns, List.map_append, List.map_singleton]
    exact congrArg (fun bs => _ ++ [bs]) (hreply.sent hserving.conn.reply (hdone hfreed))

/-- **One connection** from `accept` to its close. -/
theorem Stores.visit (h : Stores m s) (hv : v.Ok) (hclosed : (s.run v.actions).Closed) :
    Stores (m.serve v.op).2 (s.run v.actions) ∧
      (s.run v.actions).conns.map Conn.sent = s.conns.map Conn.sent ++ [(m.serve v.op).1] :=
  ((h.accept hv.clean rfl).run hv.sends v.fd hv.events).close hclosed

theorem Stores.visits (h : Stores m s) (hvs : ∀ v ∈ vs, v.Ok) (hturn : InTurn s vs) :
    Stores (m.serveAll (vs.map Visit.op)).2 (s.serveVisits vs) ∧
      (s.serveVisits vs).conns.map Conn.sent
        = s.conns.map Conn.sent ++ (m.serveAll (vs.map Visit.op)).1 := by
  -- the visits behind the first one start from the map that it leaves
  induction vs generalizing s m with
  | nil => exact ⟨h, (List.append_nil _).symm⟩
  | cons v vs ih =>
    have hsplit : ∀ pre, s.serveVisits (v :: pre) = (s.run v.actions).serveVisits pre := by
      intro pre
      simp only [Server.serveVisits, Server.run, List.flatMap_cons, List.foldl_append]
    have hfirst : (s.run v.actions).Closed := by
      have hone := hturn [v] ⟨vs, rfl⟩
      rw [hsplit] at hone
      exact hone
    obtain ⟨hholds, hsent⟩ := h.visit (hvs v (List.mem_cons_self ..)) hfirst
    obtain ⟨hrest, hsentRest⟩ := ih hholds (fun v' hmem => hvs v' (List.mem_cons_of_mem _ hmem))
      fun pre hpre => hsplit pre ▸ hturn (v :: pre) (List.cons_prefix_cons.mpr ⟨rfl, hpre⟩)
    rw [hsplit, hsentRest, hsent, List.append_assoc]
    exact ⟨hrest, rfl⟩

end Runs

/-- The booted server holds the empty map. -/
theorem Stores.boot {k : Disk} (hk : k.Fresh) : Stores [] (Server.boot k) where
  lives := .boot k
  closed := fun conn hmem => by cases hmem
  represents := ⟨rfl, List.nodup_nil, fun w => (Disk.lookup_eq_none _).mpr (hk w)⟩

/-- **Sequential refinement.** Connections that are served one after the other, without errors and
with any segmentation of reads and writes, get the replies of an ordered map from names to byte
strings, and leave the directory and the list as that map. -/
theorem sequential_refinement {k : Disk} (hk : k.Fresh) {vs : List Visit} (hvs : ∀ v ∈ vs, v.Ok)
    (hturn : InTurn (Server.boot k) vs) :
    ((Server.boot k).serveVisits vs).conns.map Conn.sent
        = (Store.serveAll [] (vs.map Visit.op)).1 ∧
      Represents (Store.serveAll [] (vs.map Visit.op)).2
        ((Server.boot k).serveVisits vs).toGlobals ∧
      ((Server.boot k).serveVisits vs).fault = false := by
  obtain ⟨hholds, hsent⟩ := (Stores.boot hk).visits hvs hturn
  exact ⟨hsent, hholds.represents, hholds.lives.fault⟩

/-- An upload in two pieces, another one of the same name, a download and a line that is no
request. -/
def fourVisits : List Visit :=
  [⟨5, ⟨pushBack (ascii "PUT x\n" ++ sizeBytes 2 ++ [97]) [.eagain, .data 98 []],
      [.room 1, .eagain, .room 9], [], []⟩, [.onRead, .onRead, .onRead, .onWrite, .onWrite],
      .put (ascii "x") [97, 98]⟩,
    ⟨5, ⟨pushBack (ascii "PUT x\n" ++ sizeBytes 1 ++ [99]) [], [.room 9], [], []⟩,
      [.onRead, .onRead], .put (ascii "x") [99]⟩,
    ⟨6, ⟨pushBack (ascii "GET x\n") [], [.room 9, .room 9, .room 9], [], []⟩,
      [.onRead, .onWrite, .onWrite, .onWrite], .get (ascii "x")⟩,
    ⟨5, ⟨pushBack (ascii "NOPE\n") [], [.room 99], [], []⟩, [.onRead], .bad⟩]

theorem fourVisits_ok : ∀ v ∈ fourVisits, v.Ok := by
  have hx : Nameable (ascii "x") := ⟨by decide, by decide, by decide, by decide⟩
  have hbad : BadLine (ascii "NOPE") := by
    refine ⟨by decide, by decide, by decide, by decide, fun v _ w heq => ?_⟩
    have hspace : space ∈ ascii "NOPE" := heq ▸ by simp [nameLine]
    exact absurd hspace (by decide)
  have hsends : ∀ {op : Op} {bytes bytes' : List Byte}, op.Sends bytes → bytes' = bytes →
      op.Sends bytes' := fun h heq => heq ▸ h
  simp only [fourVisits, List.forall_mem_cons]
  refine ⟨⟨⟨by decide, by decide, rfl, rfl⟩, ?_, by decide⟩,
    ⟨⟨by decide, by decide, rfl, rfl⟩, ?_, by decide⟩,
    ⟨⟨by decide, by decide, rfl, rfl⟩, ?_, by decide⟩,
    ⟨⟨by decide, by decide, rfl, rfl⟩, ?_, by decide⟩, fun v hv => by cases hv⟩
  · exact hsends (.put hx (by decide)) (by decide +kernel)
  · exact hsends (.put hx (by decide)) (by decide +kernel)
  · exact hsends (.get hx []) (by decide +kernel)
  · exact hsends (.badLine hbad []) (by decide +kernel)

theorem sequential_refinement_fourVisits :
    ((Server.boot bareDisk).serveVisits fourVisits).conns.map Conn.sent
        = [okLine, okLine, okLine ++ (sizeBytes 1 ++ [99]), responseText .error errBadRequest] ∧
      Represents [(ascii "x", [99])] ((Server.boot bareDisk).serveVisits fourVisits).toGlobals := by
  have hturn : ∀ pre ∈ fourVisits.inits, ((Server.boot bareDisk).serveVisits pre).Closed := by
    decide +kernel
  have h := sequential_refinement bareDisk_fresh fourVisits_ok fun pre hpre =>
    hturn pre ((List.mem_inits _ _).mpr hpre)
  exact ⟨h.1.trans (by decide +kernel), h.2.1⟩

end FileServer
