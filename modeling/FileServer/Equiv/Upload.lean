/-
  Uploads: what a connection has received, and whether its file was opened and
  accepted.

  `UploadOk` ties the log of a connection to its state: the size field and the body
  received so far, byte by byte; only a PUT opens an upload file, only a whole body
  of the declared size is accepted, and an OK reply to a PUT is an accepted upload.
-/
import FileServer.Equiv.Request

namespace FileServer

/-- The received bytes: the header, the size field, and `body`. -/
def ReceivedBody (c : Conn) (body : List Byte) : Prop :=
  c.received = c.client.headerBuf ++ sizeBytes c.client.expectedSize ++ body

/-- How far the upload of a connection is, state by state. -/
structure UploadOk (c : Conn) : Prop where
  header : c.client.state = .recvHeader → c.opened = false ∧ c.accepted = false
  size : c.client.state = .recvPutSize → c.opened = false ∧ c.accepted = false ∧
    c.client.requestVerb = .put ∧ c.client.bytesTransferred ≤ 8 ∧
    c.received = c.client.headerBuf
      ++ (sizeBytes c.client.expectedSize).take c.client.bytesTransferred
  data : c.client.state = .recvPutData → c.opened = true ∧ c.accepted = false ∧
    c.client.requestVerb = .put ∧ c.client.bytesTransferred ≤ c.client.expectedSize ∧
    ∃ body, ReceivedBody c body ∧ body.length = c.client.bytesTransferred
  opened : c.opened = true → c.client.requestVerb = .put
  accepted : c.accepted = true → c.opened = true ∧
    (c.client.state = .sendOk ∨ c.client.state = .done) ∧
    ∃ body, ReceivedBody c body ∧ body.length = c.client.expectedSize
  ok : c.client.state = .sendOk → c.client.requestVerb = .put → c.accepted = true

/-- Only a PUT has an upload accepted, and that before its reply. -/
theorem UploadOk.not_accepted {a : Conn} (hu : UploadOk a) (h : a.client.requestVerb ≠ .put ∨
    a.client.state ≠ .sendOk ∧ a.client.state ≠ .done) : a.accepted = false := by
  by_contra hacc
  obtain ⟨ho, hst, -⟩ := hu.accepted (by simpa using hacc)
  rcases h with h | ⟨h1, h2⟩
  · exact h (hu.opened ho)
  · exact hst.elim h1 h2

/-- The logs tell the same about the upload. -/
structure SameUpload (a b : Conn) : Prop where
  opened : b.opened = a.opened
  accepted : b.accepted = a.accepted
  received : b.received = a.received

/-- A call that neither opens nor accepts an upload nor receives anything. -/
def Call.Other (x : Call) : Prop :=
  x.opensUpload = false ∧ x.accepts = false ∧ x.received = []

namespace SameUpload

theorem refl (a : Conn) : SameUpload a a := ⟨rfl, rfl, rfl⟩

theorem trans {a b c : Conn} (h : SameUpload a b) (h' : SameUpload b c) : SameUpload a c :=
  ⟨h'.opened.trans h.opened, h'.accepted.trans h.accepted, h'.received.trans h.received⟩

theorem of_log {a b : Conn} {l : List Call} (h : b.log = a.log ++ l)
    (hcalls : ∀ x ∈ l, x.Other) : SameUpload a b where
  opened := by
    rw [Conn.opened_of_log h, List.any_eq_false.mpr (fun x hx => by simp [(hcalls x hx).1]),
      Bool.or_false]
  accepted := by
    rw [Conn.accepted_of_log h, List.any_eq_false.mpr (fun x hx => by simp [(hcalls x hx).2.1]),
      Bool.or_false]
  received := by
    rw [Conn.received_of_log h, List.flatMap_eq_nil_iff.mpr fun x hx => (hcalls x hx).2.2,
      List.append_nil]

theorem of_log_single {a b : Conn} {x : Call} (h : b.log = a.log ++ [x]) (hx : x.Other) :
    SameUpload a b := of_log h fun _ hy => List.mem_singleton.mp hy ▸ hx

theorem of_write {a b : Conn} {bs : List Byte} {r : WriteResult}
    (h : b.log = a.log ++ [.write bs r]) : SameUpload a b :=
  of_log_single h ⟨rfl, rfl, rfl⟩

end SameUpload

section Steps

variable {c c' : Ctx} {st : Status} {msg : List Byte}

theorem Quiet.sameUpload (h : Quiet c c') : SameUpload c.toConn c'.toConn := by
  cases h with
  | @read n hn hr =>
    refine .of_log_single (Ctx.sysRead_log c n) ⟨rfl, rfl, ?_⟩
    rcases hr with hr | hr <;> rw [hr] <;> rfl
  | @write bs => exact .of_write (Ctx.sysWrite_log c bs)
  | pread => exact ⟨rfl, rfl, rfl⟩

theorem Send.sameUpload (h : Send c c') : SameUpload c.toConn c'.toConn := by
  have hline : ∀ n, SameUpload c.toConn (sentLine c n).toConn := fun n =>
    .of_write (Ctx.sysWrite_log c (simpleResponseRest c.client))
  have hmod : ∀ {a b : Conn}, b.log = a.log ++ [.modify .write] → SameUpload a b := fun h =>
    .of_log_single h ⟨rfl, rfl, rfl⟩
  cases h with
  | @linePart n => exact (hline n).trans (hmod rfl)
  | @lineGet n => exact (hline n).trans (hmod rfl)
  | @lineList n buffer =>
    exact (hline n).trans (hmod (by simp))
  | loadSize hs hl => rw [loadGetSize_of_zero hl]; exact ⟨rfl, rfl, rfl⟩
  | @sizePart n => exact hline n
  | @sizeAll n => exact (hline n).trans (hmod rfl)
  | @data f bs => exact .of_write (Ctx.sysWrite_log (readData c f).2 bs)
  | listPart => exact .of_write (Ctx.sysWrite_log c (listRest c.client))

theorem Close.sameUpload (h : Close c c') : SameUpload c.toConn c'.toConn := by
  cases h with
  | header hs hlen hr =>
    refine .of_log_single (Ctx.sysRead_log c 1) ⟨rfl, rfl, ?_⟩
    rcases hr with hr | hr | hr <;> rw [hr] <;> rfl
  | noFile => exact ⟨rfl, rfl, rfl⟩
  | pread => exact ⟨rfl, rfl, rfl⟩
  | got => exact ⟨rfl, rfl, rfl⟩
  | line => exact .of_write (Ctx.sysWrite_log c (simpleResponseRest c.client))
  | replied => exact .of_write (Ctx.sysWrite_log c (simpleResponseRest c.client))
  | size => exact .of_write (Ctx.sysWrite_log c (simpleResponseRest c.client))
  | @data f bs => exact .of_write (Ctx.sysWrite_log (readData c f).2 bs)
  | list => exact .of_write (Ctx.sysWrite_log c (listRest c.client))
  | listed => exact .of_write (Ctx.sysWrite_log c (listRest c.client))

theorem closeAndCleanup_sameUpload (k : Ctx) : SameUpload k.toConn (closeAndCleanup k).toConn :=
  ⟨closeAndCleanup_opened k, closeAndCleanup_accepted k, closeAndCleanup_received k⟩

theorem fillResponse_sameUpload (k : Ctx) (st : Status) (msg : List Byte) :
    SameUpload k.toConn (fillResponse k st msg).toConn :=
  .of_log_single (x := .reply st msg) rfl ⟨rfl, rfl, rfl⟩

theorem takeLine_sameUpload (q : Request) :
    (takeLine c q).opened = c.opened ∧ (takeLine c q).accepted = c.accepted := by
  have h : (takeLine c q).log = c.log ++ [.read (c.sysRead 1).1] := rfl
  rw [Conn.opened_of_log h, Conn.accepted_of_log h]
  exact ⟨Bool.or_false _, Bool.or_false _⟩

theorem LineRead.fresh {q : Request} (hl : LineRead c q) (hu : UploadOk c.toConn) :
    (takeLine c q).opened = false ∧ (takeLine c q).accepted = false := by
  obtain ⟨ho, ha⟩ := takeLine_sameUpload (c := c) q
  obtain ⟨ho', ha'⟩ := hu.header hl.state
  exact ⟨ho.trans ho', ha.trans ha'⟩

/-- What the choice of a reply says about the upload: an OK to a PUT, and nothing else, accepts
it. -/
structure ChosenOk (c : Conn) (st : Status) : Prop where
  opened : c.opened = true → c.client.requestVerb = .put
  accepted : c.accepted = true → c.opened = true ∧ st = .ok ∧
    ∃ body, ReceivedBody c body ∧ body.length = c.client.expectedSize
  ok : st = .ok → c.client.requestVerb = .put → c.accepted = true

/-- Without an upload. -/
theorem ChosenOk.of_fresh {d : Conn} (ho : d.opened = false) (ha : d.accepted = false)
    (hv : st = .ok → d.client.requestVerb ≠ .put) : ChosenOk d st :=
  ⟨fun h => (by rw [ho] at h; cases h), fun h => (by rw [ha] at h; cases h),
    fun hst hput => absurd hput (hv hst)⟩

/-- With an upload that is refused. -/
theorem ChosenOk.of_refused {d : Conn} (hu : UploadOk c.toConn)
    (hs : c.client.state = .recvPutData) (hv : d.client.requestVerb = c.client.requestVerb)
    (ha : d.accepted = c.accepted) : ChosenOk d .error := by
  obtain ⟨-, ha', hverb, -⟩ := hu.data hs
  exact ⟨fun _ => hv.trans hverb, fun h => (by rw [ha, ha'] at h; cases h), fun h => (by cases h)⟩

theorem Choose.chosenOk (h : Choose c c' st msg) (hu : UploadOk c.toConn) :
    ChosenOk c'.toConn st := by
  have hread : ∀ {d : Conn} (r : ReadResult), d.log = c.log ++ [.read r] →
      d.opened = c.opened ∧ d.accepted = c.accepted := fun r h => by
    rw [Conn.opened_of_log h, Conn.accepted_of_log h]
    exact ⟨Bool.or_false _, Bool.or_false _⟩
  have hother : ∀ {a b : Conn} {x : Call}, b.log = a.log ++ [x] → x.Other →
      a.opened = false ∧ a.accepted = false → b.opened = false ∧ b.accepted = false :=
    fun h hx ⟨ho, ha⟩ => ⟨(SameUpload.of_log_single h hx).opened.trans ho,
      (SameUpload.of_log_single h hx).accepted.trans ha⟩
  cases h with
  | bad hl => exact .of_fresh (hl.fresh hu).1 (hl.fresh hu).2 (fun h => by cases h)
  | tooLong hs => exact .of_fresh (hu.header hs).1 (hu.header hs).2 (fun h => by cases h)
  | list hl => exact .of_fresh (hl.fresh hu).1 (hl.fresh hu).2 (fun _ h => by cases h)
  | deleteAbsent hl => exact .of_fresh (hl.fresh hu).1 (hl.fresh hu).2 (fun h => by cases h)
  | @deleteFailed w i hl =>
    obtain ⟨ho, ha⟩ := hother (Ctx.sysUnlink_log (takeLine c (.delete w)) _) ⟨rfl, rfl, rfl⟩
      (hl.fresh hu)
    exact .of_fresh ho ha (fun h => by cases h)
  | @deleted w i hl =>
    obtain ⟨ho, ha⟩ := hother (b := (removeFileFromList _ _).toConn)
      ((removeFileFromList_log _ _).trans (Ctx.sysUnlink_log (takeLine c (.delete w)) _))
      ⟨rfl, rfl, rfl⟩ (hl.fresh hu)
    exact .of_fresh ho ha (fun _ h => by rw [removeFileFromList_client] at h; cases h)
  | @getMissing w hl =>
    obtain ⟨ho, ha⟩ := hother (Ctx.sysOpenRead_log (takeLine c (.get w)) _) ⟨rfl, rfl, rfl⟩
      (hl.fresh hu)
    exact .of_fresh ho ha (fun h => by cases h)
  | @getFailed w f hl =>
    obtain ⟨ho, ha⟩ := hother (Ctx.sysOpenRead_log (takeLine c (.get w)) _) ⟨rfl, rfl, rfl⟩
      (hl.fresh hu)
    exact .of_fresh ho ha (fun h => by cases h)
  | @getOpened w f size hl =>
    obtain ⟨ho, ha⟩ := hother (Ctx.sysOpenRead_log (takeLine c (.get w)) _) ⟨rfl, rfl, rfl⟩
      (hl.fresh hu)
    exact .of_fresh ho ha (fun _ h => by cases h)
  | sizeCut hs =>
    obtain ⟨ho, ha, -⟩ := hu.size hs
    obtain ⟨ho', ha'⟩ := hread _ (Ctx.sysRead_log c _)
    exact .of_fresh (ho'.trans ho) (ha'.trans ha) (fun h => by cases h)
  | openFailed hs hlen hopen =>
    obtain ⟨ho, ha, -⟩ := hu.size hs
    have hlog : (openUploadFile c).2.log
        = c.log ++ [.openWrite c.filepath (openUploadFile c).1] := rfl
    rw [hopen] at hlog
    obtain ⟨ho', ha'⟩ := hother (b := (openUploadFile c).2.toConn) hlog ⟨rfl, rfl, rfl⟩ ⟨ho, ha⟩
    exact .of_fresh ho' ha' (fun h => by cases h)
  | bodyCut hs => exact .of_refused hu hs rfl (hread _ (Ctx.sysRead_log c _)).2
  | noFile hs => exact .of_refused hu hs rfl (hread _ (Ctx.sysRead_log c _)).2
  | bodyFailed hs => exact .of_refused hu hs rfl (hread _ (Ctx.sysRead_log c _)).2
  | extraByte hs => exact .of_refused hu hs rfl (hread _ (Ctx.sysRead_log c.closeFile 1)).2
  | accepted hs hlen hr =>
    obtain ⟨ho, -, hverb, -, body, hbody, hblen⟩ := hu.data hs
    have hlog := acceptUpload_log c
    have hclient := acceptUpload_client c
    have hacc : (acceptUpload c).accepted = true := by
      rw [Conn.accepted_of_log hlog]
      exact Bool.or_true _
    have hrec : (acceptUpload c).received = c.received := by
      rw [Conn.received_of_log hlog]
      cases hread : (readExtra c).1 with
      | bytes bs =>
        cases bs with
        | nil => exact List.append_nil _
        | cons b bs => exact absurd hread (hr b bs)
      | _ => exact List.append_nil _
    have hopen : (acceptUpload c).opened = true := by
      rw [Conn.opened_of_log hlog, ho, Bool.true_or]
    refine ⟨fun _ => by rw [hclient]; exact hverb, fun _ => ⟨hopen, rfl, body, ?_, ?_⟩, fun _ _ => hacc⟩
    · rw [ReceivedBody, hrec, hclient]
      exact hbody
    · rw [hclient, hblen]
      exact hlen
  | @listNoMemory n hs hv =>
    have hsame : SameUpload c.toConn (buildListBuffer (sentLine c n)).2.toConn :=
      .of_write ((buildListBuffer_log (sentLine c n)).trans
        (Ctx.sysWrite_log c (simpleResponseRest c.client)))
    have ho : c.opened = false := by
      by_contra h
      cases hv.symm.trans (hu.opened (by simpa using h))
    have ha := hu.not_accepted (.inl (by simp [hv]))
    exact .of_fresh (hsame.opened.trans ho) (hsame.accepted.trans ha) (fun h => by cases h)

/-- The same upload, in another state. -/
theorem UploadOk.of_sending (hu : UploadOk c.toConn) (hsame : SameUpload c.toConn c'.toConn)
    (hk : SameHeader c.client c'.client) (hexp : c'.client.expectedSize = c.client.expectedSize)
    (hs : c'.client.state.Sending) (hstate : c'.client.state = c.client.state ∨
      c'.client.state ≠ .sendOk ∧ c.accepted = false) : UploadOk c'.toConn := by
  obtain ⟨h1, h2, h3, -⟩ := hs.ne
  refine ⟨fun h => absurd h h1, fun h => absurd h h2, fun h => absurd h h3, fun h => ?_, fun h => ?_,
    fun h hv => ?_⟩
  · rw [hk.verb]
    exact hu.opened (hsame.opened.symm.trans h)
  · obtain ⟨ho, hst, body, hbody, hlen⟩ := hu.accepted (hsame.accepted.symm.trans h)
    refine ⟨hsame.opened.trans ho, ?_, body, ?_, hlen.trans hexp.symm⟩
    · rcases hstate with hstate | ⟨-, ha⟩
      · rw [hstate]; exact hst
      · cases ha.symm.trans (hsame.accepted.symm.trans h)
    · rw [ReceivedBody, hsame.received, hk.buf, hexp]
      exact hbody
  · rcases hstate with hstate | ⟨hne, -⟩
    · exact hsame.accepted.trans (hu.ok (hstate.symm.trans h) (hk.verb.symm.trans hv))
    · exact absurd h hne

theorem ChosenOk.fill (h : ChosenOk c.toConn st) : UploadOk (fillResponse c st msg).toConn := by
  have hsame := fillResponse_sameUpload c st msg
  have hst := fillResponse_state c st msg
  obtain ⟨h1, h2, h3, -⟩ := (fillResponse_sending c st msg).ne
  refine ⟨fun h => absurd h h1, fun h => absurd h h2, fun h => absurd h h3, fun ho => ?_, fun ha => ?_,
    fun hs hv => ?_⟩
  · exact h.opened (hsame.opened.symm.trans ho)
  · obtain ⟨ho, rfl, body, hbody, hlen⟩ := h.accepted (hsame.accepted.symm.trans ha)
    exact ⟨hsame.opened.trans ho, .inl rfl, body, hsame.received.trans hbody, hlen⟩
  · refine hsame.accepted.trans (h.ok ?_ hv)
    cases st with
    | ok => rfl
    | error => cases hst.symm.trans hs

/-- Everything that the invariant looks at is the same. -/
theorem UploadOk.congr (hu : UploadOk c.toConn) (hsame : SameUpload c.toConn c'.toConn)
    (hs : c'.client.state = c.client.state) (hv : c'.client.requestVerb = c.client.requestVerb)
    (hb : c'.client.headerBuf = c.client.headerBuf)
    (he : c'.client.expectedSize = c.client.expectedSize)
    (ht : c'.client.bytesTransferred = c.client.bytesTransferred) : UploadOk c'.toConn := by
  have hbody : ∀ body, ReceivedBody c.toConn body → ReceivedBody c'.toConn body := fun body h => by
    rw [ReceivedBody, hsame.received, hb, he]
    exact h
  refine ⟨fun h => ?_, fun h => ?_, fun h => ?_, fun h => ?_, fun h => ?_, fun h hput => ?_⟩
  · rw [hsame.opened, hsame.accepted]
    exact hu.header (hs.symm.trans h)
  · rw [hsame.opened, hsame.accepted, hsame.received, hv, ht, hb, he]
    exact hu.size (hs.symm.trans h)
  · rw [hsame.opened, hsame.accepted, hv, ht, he]
    obtain ⟨h1, h2, h3, h4, body, h5, h6⟩ := hu.data (hs.symm.trans h)
    exact ⟨h1, h2, h3, h4, body, hbody body h5, h6⟩
  · rw [hv]
    exact hu.opened (hsame.opened.symm.trans h)
  · rw [hsame.opened, hs, he]
    obtain ⟨h1, h2, body, h5, h6⟩ := hu.accepted (hsame.accepted.symm.trans h)
    exact ⟨h1, h2, body, hbody body h5, h6⟩
  · exact hsame.accepted.trans (hu.ok (hs.symm.trans h) (hv.symm.trans hput))

theorem UploadOk.close (hu : UploadOk c.toConn) : UploadOk (closeAndCleanup c).toConn := by
  refine hu.congr (closeAndCleanup_sameUpload c) ?_ ?_ ?_ ?_ ?_ <;> rw [closeAndCleanup_client]

/-- A connection in `STATE_DONE` is as it was before. -/
theorem UploadOk.done {k : Ctx} (hu : UploadOk c.toConn) (hsame : SameUpload c.toConn k.toConn)
    (hk : SameHeader c.client k.client) (hexp : k.client.expectedSize = c.client.expectedSize)
    (hs : k.client.state = .done) : UploadOk k.toConn := by
  refine ⟨fun h => ?_, fun h => ?_, fun h => ?_, fun h => ?_, fun h => ?_, fun h => ?_⟩
  · cases hs.symm.trans h
  · cases hs.symm.trans h
  · cases hs.symm.trans h
  · rw [hk.verb]
    exact hu.opened (hsame.opened.symm.trans h)
  · obtain ⟨ho, -, body, hbody, hlen⟩ := hu.accepted (hsame.accepted.symm.trans h)
    refine ⟨hsame.opened.trans ho, .inr hs, body, ?_, hlen.trans hexp.symm⟩
    rw [ReceivedBody, hsame.received, hk.buf, hexp]
    exact hbody
  · cases hs.symm.trans h

theorem Close.uploadOk (h : Close c c') (hu : UploadOk c.toConn) : UploadOk c'.toConn := by
  have hsame := h.sameUpload
  cases h with
  | replied => exact hu.done hsame ⟨rfl, rfl, rfl, rfl⟩ rfl rfl
  | got => exact hu.done hsame ⟨rfl, rfl, rfl, rfl⟩ rfl rfl
  | listed => exact hu.done hsame ⟨rfl, rfl, rfl, rfl⟩ rfl rfl
  | _ => exact hu.congr hsame rfl rfl rfl rfl rfl

theorem Send.uploadOk (h : Send c c') (hu : UploadOk c.toConn) : UploadOk c'.toConn := by
  have hsame := h.sameUpload
  have hk := h.sameHeader
  have hs := h.sending
  cases h with
  | linePart => exact hu.of_sending hsame hk rfl hs (.inl rfl)
  | lineGet _ hv => exact hu.of_sending hsame hk rfl hs (.inr ⟨by simp, hu.not_accepted (.inl (by simp [hv]))⟩)
  | lineList _ hv =>
    refine hu.of_sending hsame hk ?_ hs
      (.inr ⟨by simp, hu.not_accepted (.inl (by simp [hv]))⟩)
    rw [Ctx.modifyEventLoop_client, Ctx.setClient_client, buildListBuffer_client]; rfl
  | loadSize hs' hl =>
    rw [loadGetSize_of_zero hl] at *
    exact hu.of_sending hsame hk rfl hs (.inl rfl)
  | sizePart => exact hu.of_sending hsame hk rfl hs (.inl rfl)
  | sizeAll hs' =>
    exact hu.of_sending hsame hk rfl hs
      (.inr ⟨by simp, hu.not_accepted (.inr (by simp [hs']))⟩)
  | data => exact hu.of_sending hsame hk rfl hs (.inl rfl)
  | listPart => exact hu.of_sending hsame hk rfl hs (.inl rfl)

/-- The bytes of the size field received so far are in place. -/
theorem storeSize_received {bs : List Byte}
    (hr : (c.sysRead (sizeLen - c.client.bytesTransferred)).1 = .bytes bs)
    (hlen : c.client.bytesTransferred < sizeLen)
    (h : c.received = c.client.headerBuf
      ++ (sizeBytes c.client.expectedSize).take c.client.bytesTransferred) :
    (storeSize c bs).client.bytesTransferred ≤ 8 ∧
      (storeSize c bs).received = c.client.headerBuf
        ++ (sizeBytes (storeSize c bs).client.expectedSize).take
          (storeSize c bs).client.bytesTransferred := by
  have hle := length_read_le (s := c.script) hr
  have hfit : c.client.bytesTransferred + bs.length ≤ 8 := by simp only [sizeLen] at hle hlen; omega
  refine ⟨hfit, ?_⟩
  have hlog : (storeSize c bs).log
      = c.log ++ [.read (c.sysRead (sizeLen - c.client.bytesTransferred)).1] := rfl
  rw [Conn.received_of_log hlog, hr, h]
  change _ = c.client.headerBuf ++ (sizeBytes (pokeSize c.client.expectedSize
    c.client.bytesTransferred bs)).take (c.client.bytesTransferred + bs.length)
  rw [take_sizeBytes_pokeSize _ _ _ hfit]
  simp [Call.received]

theorem UploadOk.step (hreq : RequestOk c) (hu : UploadOk c.toConn) (h : Step c c') :
    UploadOk c'.toConn := by
  cases h with
  | quiet h =>
    have hk : c'.client = c.client := by cases h <;> rfl
    refine hu.congr h.sameUpload ?_ ?_ ?_ ?_ ?_ <;> rw [hk]
  | receive h =>
    cases h with
    | @header b bs hf hs =>
      have hlog : (storeHeader c b).log = c.log ++ [.read (c.sysRead 1).1] := rfl
      obtain ⟨ho, ha⟩ := hu.header hs
      have ho' : (storeHeader c b).opened = false := by
        rw [Conn.opened_of_log hlog, ho]; rfl
      have ha' : (storeHeader c b).accepted = false := by
        rw [Conn.accepted_of_log hlog, ha]; rfl
      exact ⟨fun _ => ⟨ho', ha'⟩, fun h => (by cases hs.symm.trans h),
        fun h => (by cases hs.symm.trans h), fun h => (by cases ho'.symm.trans h),
        fun h => (by cases ha'.symm.trans h), fun h => (by cases hs.symm.trans h)⟩
    | @size bs hs hlen hr =>
      obtain ⟨ho, ha, hv, hle, hrec⟩ := hu.size hs
      have hlog : (storeSize c bs).log
          = c.log ++ [.read (c.sysRead (sizeLen - c.client.bytesTransferred)).1] := rfl
      have ho' : (storeSize c bs).opened = false := by
        rw [Conn.opened_of_log hlog, ho]; rfl
      have ha' : (storeSize c bs).accepted = false := by
        rw [Conn.accepted_of_log hlog, ha]; rfl
      obtain ⟨h1, h2⟩ := storeSize_received hr hlen hrec
      exact ⟨fun h => (by cases hs.symm.trans h), fun _ => ⟨ho', ha', hv, h1, h2⟩,
        fun h => (by cases hs.symm.trans h), fun h => (by cases ho'.symm.trans h),
        fun h => (by cases ha'.symm.trans h), fun h => (by cases hs.symm.trans h)⟩
    | @body bs f hs hlen hr =>
      obtain ⟨ho, ha, hv, -, body, hbody, hblen⟩ := hu.data hs
      -- a `read` returns at most what is missing of the body
      have hle := length_read_le (s := c.script) hr
      have hfit : c.client.bytesTransferred + bs.length ≤ c.client.expectedSize := by
        simp only [bodyRoom] at hle
        omega
      generalize hd : (writeBody c f bs).2.setClient _ = d
      have hlog : d.log = c.log ++ [.read (.bytes bs)] := by rw [← hd, ← hr]; rfl
      have hclient : d.client = { c.client with
          bytesTransferred := c.client.bytesTransferred + bs.length } := by rw [← hd]; rfl
      have ho' : d.opened = true := by rw [Conn.opened_of_log hlog, ho]; rfl
      have ha' : d.accepted = false := by rw [Conn.accepted_of_log hlog, ha]; rfl
      have hrec : ReceivedBody d.toConn (body ++ bs) := by
        rw [ReceivedBody, Conn.received_of_log hlog, hbody, hclient]
        simp [Call.received]
      refine ⟨fun h => ?_, fun h => ?_, fun _ => ⟨ho', ha', ?_, ?_, body ++ bs, hrec, ?_⟩,
        fun _ => ?_, fun h => (by cases ha'.symm.trans h), fun h => ?_⟩ <;> rw [hclient] at *
      · cases hs.symm.trans h
      · cases hs.symm.trans h
      · exact hv
      · exact hfit
      · rw [List.length_append, hblen]
      · exact hv
      · cases hs.symm.trans h
  | begin h =>
    cases h with
    | @put w hl =>
      obtain ⟨-, -, hrec⟩ := hreq.lineTaken hl
      obtain ⟨ho, ha⟩ := hl.fresh hu
      have hsame : SameUpload (takeLine c (.put w)).toConn
          (((takeLine c (.put w)).setClient fun k =>
            { k with bytesTransferred := 0, state := .recvPutSize }).modifyEventLoop .read).toConn :=
        .of_log_single (x := .modify .read) rfl ⟨rfl, rfl, rfl⟩
      refine ⟨fun h => (by cases h), fun _ => ⟨hsame.opened.trans ho, hsame.accepted.trans ha, rfl,
        Nat.zero_le _, ?_⟩, fun h => (by cases h), fun _ => rfl, fun h => ?_, fun h => (by cases h)⟩
      · rw [hsame.received, hrec]
        exact (List.append_nil _).symm
      · cases ha.symm.trans (hsame.accepted.symm.trans h)
    | @upload f hs hlen hopen =>
      obtain ⟨-, ha, hv, hle, hrec⟩ := hu.size hs
      have hlog : (setState (openUploadFile c).2 .recvPutData).log
          = c.log ++ [.openWrite c.filepath (openUploadFile c).1] := rfl
      rw [hopen] at hlog
      generalize hd : setState (openUploadFile c).2 .recvPutData = d at hlog
      have hclient : d.client = { c.client with
          bytesTransferred := 0, fileFd := some f, state := .recvPutData } := by
        rw [← hd, ← hopen]; rfl
      have ho' : d.opened = true := by rw [Conn.opened_of_log hlog]; exact Bool.or_true _
      have ha' : d.accepted = false := by rw [Conn.accepted_of_log hlog, ha]; rfl
      -- all eight bytes of the size field are there, and nothing of the body
      have hbody : ReceivedBody d.toConn [] := by
        have htake : c.client.bytesTransferred = 8 := by simp only [sizeLen] at hlen; omega
        rw [ReceivedBody, Conn.received_of_log hlog, hclient, hrec, htake]
        rw [List.take_of_length_le (by simp)]
        rfl
      refine ⟨fun h => ?_, fun h => ?_, fun _ => ⟨ho', ha', ?_, ?_, [], hbody, ?_⟩, fun _ => ?_,
        fun h => (by cases ha'.symm.trans h), fun h => ?_⟩ <;> rw [hclient] at *
      · cases h
      · cases h
      · exact hv
      · exact Nat.zero_le _
      · rfl
      · exact hv
      · cases h
  | choose h => exact (h.chosenOk hu).fill
  | send h => exact h.uploadOk hu
  | close h => exact (h.uploadOk hu).close
  | @fault w hl =>
    obtain ⟨ho, ha⟩ := hl.fresh hu
    have hs : (takeLine c (.delete w)).client.state = .recvHeader := hl.state
    exact ⟨fun _ => ⟨ho, ha⟩, fun h => (by cases hs.symm.trans h),
      fun h => (by cases hs.symm.trans h), fun h => (by cases ho.symm.trans h),
      fun h => (by cases ha.symm.trans h), fun h => (by cases hs.symm.trans h)⟩

end Steps

theorem uploadOk_stable : Stable fun c => RequestOk c ∧ UploadOk c.toConn where
  new := fun fd script g => ⟨requestOk_stable.new fd script g, fun _ => ⟨rfl, rfl⟩,
    fun h => (by cases h), fun h => (by cases h), fun h => (by cases h), fun h => (by cases h),
    fun h => (by cases h)⟩
  step := fun c c' hc ⟨hr, hu⟩ h => ⟨requestOk_stable.step c c' hc hr h, hu.step hr h⟩
  close := fun c hc ⟨hr, hu⟩ => ⟨requestOk_stable.close c hc hr, hu.close⟩
  globals := fun c g hg hf ⟨hr, hu⟩ => ⟨requestOk_stable.globals c g hg hf hr, hu⟩

end FileServer
