/-
  The list and the files.

  The list of names changes when an upload is accepted or a file is deleted, but a
  file also changes when an upload opens it, and disappears when a PUT connection is
  closed before its reply is sent.  So a second upload of a listed name that fails
  leaves a name without its file (`not_advertised_resetUpload`).  Where uploads of
  listed names succeed, and nobody else touches a file that is being uploaded, every
  name in the list has its file, with the body of an accepted upload (`advertised`).
-/
import FileServer.Closing
import FileServer.Download
import FileServer.FailedUpload
import FileServer.Replies

namespace FileServer

/-! ### The file of an upload -/

/-- The file of an upload holds what was received of the body. -/
structure Filled (c : Ctx) : Prop where
  data : c.freed = false → c.client.state = .recvPutData → ∃ l gen, UploadFile c l gen ∧
    (c.disk.slot l).link = some gen ∧ ReceivedBody c.toConn (c.disk.content l gen) ∧
    (c.disk.content l gen).length = c.client.bytesTransferred
  accepted : c.freed = false → c.accepted = true → ∃ body, c.disk.read c.filepath = some body ∧
    ReceivedBody c.toConn body ∧ body.length = c.client.expectedSize

section Steps

variable {c c' : Ctx}

theorem Send.expectedSize (h : Send c c') : c'.client.expectedSize = c.client.expectedSize := by
  cases h with
  | lineList =>
    simp only [Ctx.modifyEventLoop_client, Ctx.setClient_client, buildListBuffer_client]
    rfl
  | loadSize _ hl =>
    rw [loadGetSize_of_zero hl]
    rfl
  | _ => rfl

theorem Conn.accepted_mono {a b : Conn} (h : a.log <+: b.log) (ha : a.accepted = true) :
    b.accepted = true := by
  obtain ⟨calls, hcalls⟩ := h
  rw [accepted_of_log hcalls.symm, ha, Bool.true_or]

/-- A PUT connection whose whole reply was sent is closed without `unlink`. -/
theorem closeAndCleanup_disk_of_replySent {k : Ctx} (hr : ReplyOk k.toConn)
    (h : ReplySent (closeAndCleanup k).toConn) : (closeAndCleanup k).disk = k.disk := by
  rw [closeAndCleanup_disk, if_neg]
  rintro ⟨hput, hdone⟩
  obtain ⟨st, msg, hreplies, hsent⟩ := h
  rw [closeAndCleanup_replies] at hreplies
  rw [closeAndCleanup_sent] at hsent
  exact hdone ((replySent_iff hr hput).mp ⟨st, msg, hreplies, hsent⟩)

theorem Send.serverFiles (h : Send c c') : c'.serverFiles = c.serverFiles := by
  cases h with
  | lineList => exact buildListBuffer_serverFiles _
  | loadSize _ hl => exact (congrArg (fun k : Ctx => k.serverFiles) (loadGetSize_of_zero hl) :)
  | _ => rfl

/-- Behind an accepted upload only the reply is sent. -/
theorem Step.of_accepted (hc : c.freed = false) (hok : ConnOk c) (ha : c.accepted = true)
    (h : Step c c') :
    c'.accepted = true ∧ ((c'.freed = true → ReplySent c'.toConn) → c'.disk = c.disk) ∧
      c'.serverFiles = c.serverFiles ∧
      ∀ body, ReceivedBody c.toConn body → ReceivedBody c'.toConn body := by
  obtain ⟨ho, hst, -⟩ := hok.upload.accepted ha
  have hput := hok.upload.opened ho
  have hs : c.client.state = .sendOk := hst.resolve_right fun hd => by
    cases hc.symm.trans (hok.done hd)
  have hne : ∀ {t}, ConnState.sendOk ≠ t → c.client.state ≠ t := fun h' heq =>
    h' (hs.symm.trans heq)
  have hsame : SameUpload c.toConn c'.toConn → c'.client.headerBuf = c.client.headerBuf →
      c'.client.expectedSize = c.client.expectedSize →
      ∀ body, ReceivedBody c.toConn body → ReceivedBody c'.toConn body := by
    intro hsame hbuf hexp body hbody
    rw [ReceivedBody, hsame.received, hbuf, hexp]
    exact hbody
  refine ⟨Conn.accepted_mono h.log ha, ?_⟩
  have hfiles := h.serverFiles_of_sending (.inl hs)
  cases h with
  | quiet hq =>
    have hclient : c'.client = c.client := by cases hq <;> rfl
    refine ⟨fun _ => by cases hq <;> rfl, hfiles, hsame hq.sameUpload ?_ ?_⟩ <;> rw [hclient]
  | receive hr =>
    cases hr with
    | header _ hs' => exact absurd hs' (hne (by simp))
    | size hs' => exact absurd hs' (hne (by simp))
    | body hs' => exact absurd hs' (hne (by simp))
  | begin hb =>
    cases hb with
    | put hl => exact absurd hl.state (hne (by simp))
    | upload hs' => exact absurd hs' (hne (by simp))
  | choose hch =>
    rcases hch.state with hs' | hs' | hs' | ⟨-, hv⟩
    · exact absurd hs' (hne (by simp))
    · exact absurd hs' (hne (by simp))
    · exact absurd hs' (hne (by simp))
    · cases hput.symm.trans hv
  | send hs' =>
    exact ⟨fun _ => hs'.disk, hfiles, hsame hs'.sameUpload hs'.sameHeader.buf hs'.expectedSize⟩
  | @close k hk =>
    refine ⟨fun hend =>
      (closeAndCleanup_disk_of_replySent (hk.replyOk hc hok.reply) (hend rfl)).trans hk.disk, hfiles,
      hsame (hk.sameUpload.trans (closeAndCleanup_sameUpload k)) ?_ ?_⟩
    · rw [closeAndCleanup_client]
      exact hk.sameHeader.buf
    · rw [closeAndCleanup_client]
      change k.client.expectedSize = _
      cases hk <;> rfl
  | fault hl => exact absurd hl.state (hne (by simp))

/-- Where an upload comes to be accepted. -/
theorem Step.accepted_cases (hok' : ConnOk c') (h : Step c c') (ha : c'.accepted = true) :
    c.accepted = true ∨ c.client.state = .recvPutData ∧
      c' = fillResponse (acceptUpload c) .ok [] := by
  have hnot : c'.client.requestVerb ≠ .put ∨
      c'.client.state ≠ .sendOk ∧ c'.client.state ≠ .done → False := fun hne => by
    cases ha.symm.trans (hok'.upload.not_accepted hne)
  cases h with
  | quiet hq => exact .inl (hq.sameUpload.accepted.symm.trans ha)
  | receive hr =>
    left
    have hlog : ∃ r, c'.log = c.log ++ [.read r] := by cases hr <;> exact ⟨_, rfl⟩
    obtain ⟨r, hlog⟩ := hlog
    rw [Conn.accepted_of_log hlog] at ha
    exact ((Bool.or_false _).symm.trans ha :)
  | begin hb =>
    exfalso
    cases hb with
    | put => exact hnot (.inr ⟨by simp [Ctx.setClient], by simp [Ctx.setClient]⟩)
    | upload =>
      exact hnot (.inr ⟨by simp [setState, Ctx.setClient], by simp [setState, Ctx.setClient]⟩)
  | @choose d st msg hch =>
    have herr : st = .error → False := by
      rintro rfl
      exact hnot (.inr ⟨by simp [fillResponse], by simp [fillResponse]⟩)
    have hverb : d.client.requestVerb ≠ .put → False := fun hv => hnot (.inl hv)
    cases hch with
    | list => exact (hverb (by simp [takeLine, noteRequest, Request.verb, Ctx.setClient])).elim
    | deleted =>
      refine (hverb ?_).elim
      rw [removeFileFromList_client]
      simp [takeLine, noteRequest, Request.verb, Ctx.setClient]
    | getOpened => exact (hverb (by
        simp [openDownload, takeLine, noteRequest, Request.verb, Ctx.setClient])).elim
    | accepted hs => exact .inr ⟨hs, rfl⟩
    | _ => exact (herr rfl).elim
  | send hs => exact .inl (hs.sameUpload.accepted.symm.trans ha)
  | @close k hk =>
    left
    rw [closeAndCleanup_accepted, hk.sameUpload.accepted] at ha
    exact ha
  | fault hl => exact (hnot (.inr ⟨fun hs => (by cases hl.state.symm.trans hs),
      fun hs => by cases hl.state.symm.trans hs⟩)).elim

/-- Nothing is received behind a body. -/
theorem ReceivedBody.eq_of_length {a b : Conn} {body body' : List Byte} (h : ReceivedBody a body)
    (h' : ReceivedBody b body') (hlog : a.log <+: b.log)
    (hbuf : b.client.headerBuf = a.client.headerBuf)
    (hsize : b.client.expectedSize = a.client.expectedSize) (hlen : body'.length = body.length) :
    body' = body := by
  have hpre := Conn.received_mono hlog
  rw [h, h', hbuf, hsize] at hpre
  have heq := hpre.eq_of_length (by simp [hlen])
  exact (List.append_cancel_left heq).symm

theorem Filled.of_not_accepted (hs : c.client.state ≠ .recvPutData) (ha : c.accepted = false) :
    Filled c :=
  ⟨fun _ h => absurd h hs, fun _ h => by cases ha.symm.trans h⟩

theorem Filled.of_freed (h : c.freed = true) : Filled c :=
  ⟨fun hc => (by cases h.symm.trans hc), fun hc => by cases h.symm.trans hc⟩

/-- The entry of the upload is as it was. -/
theorem Filled.congr (h : Filled c) (hf : c'.freed = c.freed) (hclient : c'.client = c.client)
    (hsame : SameUpload c.toConn c'.toConn) (htree : c'.disk.tree = c.disk.tree)
    (hslot : ∀ l, c.disk.tree.resolve c.filepath = .entry l → c'.disk.slot l = c.disk.slot l) :
    Filled c' := by
  have hpath : c'.filepath = c.filepath := by rw [Ctx.filepath, hclient, htree]; rfl
  have hbody : ∀ body, ReceivedBody c.toConn body → ReceivedBody c'.toConn body := fun body hb => by
    rw [ReceivedBody, hsame.received, hclient]
    exact hb
  constructor
  · intro hc hs
    obtain ⟨l, gen, hu, hlink, hrec, hlen⟩ := h.data (hf.symm.trans hc) (hclient ▸ hs)
    have heq := hslot l hu.target
    have hcontent : c'.disk.content l gen = c.disk.content l gen := Disk.content_congr heq gen
    refine ⟨l, gen, ⟨hclient ▸ hu.fd, ?_, heq ▸ hu.lt⟩, heq ▸ hlink, ?_, ?_⟩
    · rw [htree, hpath]
      exact hu.target
    · rw [hcontent]
      exact hbody _ hrec
    · rw [hcontent, hclient]
      exact hlen
  · intro hc ha
    obtain ⟨body, hread, hrec, hlen⟩ := h.accepted (hf.symm.trans hc) (hsame.accepted.symm.trans ha)
    refine ⟨body, ?_, hbody _ hrec, hclient ▸ hlen⟩
    rw [hpath, Disk.read_congr htree hslot]
    exact hread

/-- A chunk is written behind what the file holds. -/
theorem Filled.body {bs : List Byte} {f : Handle} (h : Filled c) (hc : c.freed = false)
    (hs : c.client.state = .recvPutData) (hf : c.client.fileFd = some f)
    (hr : (c.sysRead (bodyRoom c.client)).1 = .bytes bs)
    (hw : (writeBody c f bs).1 = some bs.length) (ha : c.accepted = false) :
    Filled ((writeBody c f bs).2.setClient fun k =>
      { k with bytesTransferred := k.bytesTransferred + bs.length }) := by
  obtain ⟨l, gen, hu, hlink, hrec, hlen⟩ := h.data hc hs
  obtain rfl := Option.some.inj (hf.symm.trans hu.fd)
  -- `bytes_transferred` is the length of the file, so `pwrite` appends
  have hdisk : (writeBody c (.file l gen) bs).2.disk
      = c.disk.pwrite (.file l gen) bs c.client.bytesTransferred :=
    Ctx.sysPwrite_disk_full (c.sysRead _).2 _ _ _ hw
  generalize hd : (writeBody c (.file l gen) bs).2.setClient _ = d
  have hlog : d.log = c.log ++ [.read (.bytes bs)] := by
    rw [← hd, ← hr]
    rfl
  have hclient : d.client = { c.client with
      bytesTransferred := c.client.bytesTransferred + bs.length } := by
    rw [← hd]
    rfl
  have hdd : d.disk = c.disk.pwrite (.file l gen) bs c.client.bytesTransferred := by
    rw [← hd]
    exact hdisk
  have hcontent : d.disk.content l gen = c.disk.content l gen ++ bs := by
    rw [hdd, Disk.content_pwrite _ gen bs _ hu.lt, if_pos rfl, ← hlen, overwrite_length]
  refine ⟨fun _ _ => ⟨l, gen, ⟨?_, ?_, ?_⟩, ?_, ?_, ?_⟩, fun _ hacc => ?_⟩
  · rw [hclient]
    exact hu.fd
  · rw [Ctx.filepath, hclient, hdd, Disk.pwrite_tree]
    exact hu.target
  · rw [hdd, Disk.length_pwrite_files]
    exact hu.lt
  · rw [hdd, Disk.pwrite_link]
    exact hlink
  · rw [hcontent, ReceivedBody, Conn.received_of_log hlog, hrec, hclient]
    simp [Call.received]
  · rw [hcontent, List.length_append, hlen, hclient]
  · rw [Conn.accepted_of_log hlog, ha] at hacc
    cases hacc

/-- The upload is opened: its file is empty. -/
theorem Filled.upload {f : Handle} (ho : (openUploadFile c).1 = some f)
    (hok : ConnOk (setState (openUploadFile c).2 .recvPutData)) :
    Filled (setState (openUploadFile c).2 .recvPutData) := by
  obtain ⟨l, gen, hu, hlink, hempty⟩ := openUploadFile_uploadFile ho
  -- nothing of the body was received yet, and `O_TRUNC` left nothing in the file
  obtain ⟨-, hacc, -, -, body, hbody, hlen⟩ := hok.upload.data rfl
  have hzero : (setState (openUploadFile c).2 .recvPutData).client.bytesTransferred = 0 := rfl
  obtain rfl := List.length_eq_zero_iff.mp (hlen.trans hzero)
  refine ⟨fun _ _ => ⟨l, gen, hu, hlink, ?_, ?_⟩, fun _ h => by cases hacc.symm.trans h⟩
  · change ReceivedBody _ ((openUploadFile c).2.disk.content l gen)
    rw [hempty]
    exact hbody
  · change ((openUploadFile c).2.disk.content l gen).length = _
    rw [hempty, hzero]
    rfl

/-- The whole body is received, and the upload accepted. -/
theorem Filled.acceptUpload (h : Filled c) (hc : c.freed = false)
    (hs : c.client.state = .recvPutData)
    (hlen : c.client.bytesTransferred = c.client.expectedSize)
    (hok : ConnOk (fillResponse (acceptUpload c) .ok [])) :
    Filled (fillResponse (acceptUpload c) .ok []) := by
  refine ⟨fun _ hs' => absurd hs' (fillResponse_sending _ _ _).ne.2.2.1, fun _ hacc => ?_⟩
  obtain ⟨l, gen, hu, hlink, hrec, hl⟩ := h.data hc hs
  -- the body that was accepted has the length of what is in the file, so it is that
  obtain ⟨-, -, body, hbody, hblen⟩ := hok.upload.accepted hacc
  have hdisk : (fillResponse (FileServer.acceptUpload c) .ok []).disk = c.disk :=
    addFileToList_disk _ _
  have hexp : (fillResponse (FileServer.acceptUpload c) .ok []).client.expectedSize
      = c.client.expectedSize := by
    change (FileServer.acceptUpload c).client.expectedSize = _
    rw [acceptUpload_client]
  have hbuf : (fillResponse (FileServer.acceptUpload c) .ok []).client.headerBuf
      = c.client.headerBuf := by
    change (FileServer.acceptUpload c).client.headerBuf = _
    rw [acceptUpload_client]
  have hlog : c.log <+: (fillResponse (FileServer.acceptUpload c) .ok []).log := by
    change c.log <+: (FileServer.acceptUpload c).log ++ _
    rw [acceptUpload_log, List.append_assoc]
    exact List.prefix_append ..
  obtain rfl := hrec.eq_of_length hbody hlog hbuf hexp (by rw [hblen, hexp, hl, hlen])
  refine ⟨_, ?_, hbody, hblen⟩
  have hpath : (fillResponse (FileServer.acceptUpload c) .ok []).filepath = c.filepath := by
    change snprintf 1024 ((FileServer.acceptUpload c).disk.tree.tempName ++ [slash]
      ++ (FileServer.acceptUpload c).client.filename) = _
    rw [acceptUpload_client]
    exact congrArg (fun k : Disk => snprintf 1024 (k.tree.tempName ++ [slash]
      ++ c.client.filename)) hdisk
  rw [hpath, hdisk, Disk.read_entry _ hu.target]
  exact Disk.lookup_of_link _ hlink

/-- **A step of an upload** keeps its file filled with what was received. -/
theorem Filled.step (h : Filled c) (hok : ConnOk c) (hc : c.freed = false) (hstep : Step c c') :
    Filled c' := by
  have hok' : ConnOk c' := connOk_stable.step c c' hc hok hstep
  have hnot : c'.client.state ≠ .recvPutData →
      c'.client.requestVerb ≠ .put ∨ c'.client.state ≠ .sendOk ∧ c'.client.state ≠ .done →
      Filled c' := fun hs hne => .of_not_accepted hs (hok'.upload.not_accepted hne)
  cases hstep with
  | quiet hq =>
    have hclient : c'.client = c.client := by cases hq <;> rfl
    have hdisk : c'.disk = c.disk := by cases hq <;> rfl
    exact h.congr (by cases hq <;> rfl) hclient hq.sameUpload (by rw [hdisk])
      fun l _ => by rw [hdisk]
  | receive hr =>
    cases hr with
    | header _ hs =>
      exact hnot (by simp [storeHeader, hs]) (.inr ⟨by simp [storeHeader, hs],
        by simp [storeHeader, hs]⟩)
    | size hs =>
      exact hnot (by simp [storeSize, hs]) (.inr ⟨by simp [storeSize, hs], by simp [storeSize, hs]⟩)
    | body hs hlen hr hne hf hw => exact h.body hc hs hf hr hw (hok.upload.data hs).2.1
  | begin hb =>
    cases hb with
    | put => exact hnot (by simp [Ctx.setClient]) (.inr ⟨by simp [Ctx.setClient],
        by simp [Ctx.setClient]⟩)
    | upload hs hlen ho => exact .upload ho hok'
  | @choose d st msg hch =>
    have hsend := fillResponse_sending d st msg
    -- an upload is accepted only where OK is chosen for a PUT
    have herr : st = .error → Filled (fillResponse d st msg) := by
      rintro rfl
      exact hnot hsend.ne.2.2.1 (.inr ⟨by simp [fillResponse], by simp [fillResponse]⟩)
    have hverb : d.client.requestVerb ≠ .put → Filled (fillResponse d st msg) := fun hv =>
      hnot hsend.ne.2.2.1 (.inl hv)
    cases hch with
    | list => exact hverb (by simp [takeLine, noteRequest, Request.verb, Ctx.setClient])
    | deleted =>
      refine hverb ?_
      rw [removeFileFromList_client]
      simp [takeLine, noteRequest, Request.verb, Ctx.setClient]
    | getOpened => exact hverb (by
        simp [openDownload, takeLine, noteRequest, Request.verb, Ctx.setClient])
    | accepted hs hlen => exact h.acceptUpload hc hs hlen hok'
    | _ => exact herr rfl
  | send hs =>
    refine ⟨fun _ hs' => absurd hs' hs.sending.ne.2.2.1, fun _ hacc => ?_⟩
    have hsame := hs.sameUpload
    obtain ⟨body, hread, hrec, hlen⟩ := h.accepted hc (hsame.accepted.symm.trans hacc)
    have hexp := hs.expectedSize
    refine ⟨body, ?_, ?_, hexp ▸ hlen⟩
    · rw [Ctx.filepath, hs.sameHeader.name, hs.disk]
      exact hread
    · rw [ReceivedBody, hsame.received, hs.sameHeader.buf, hexp]
      exact hrec
  | close => exact .of_freed rfl
  | fault hl =>
    have hne : ∀ {t}, ConnState.recvHeader ≠ t → c.client.state ≠ t := fun h hs =>
      h (hl.state.symm.trans hs)
    exact hnot (hne (by simp)) (.inr ⟨hne (by simp), hne (by simp)⟩)

/-! ### Other names -/

/-- Two names without a slash that denote one entry are the same. -/
theorem Tree.name_injective {t : Tree} {v w : Path} {l : Loc} (hv : slash ∉ v) (hw : slash ∉ w)
    (hvl : t.resolve (t.path v) = .entry l) (hwl : t.resolve (t.path w) = .entry l) : v = w := by
  have hentry : ∀ {u : Path}, slash ∉ u → t.resolve (t.path u) = .entry l → l = (t.temp, u) := by
    intro u hu hul
    by_cases he : EntryName u
    · exact Target.entry.inj (hul.symm.trans (t.resolve_entryName he))
    · obtain ⟨d, hd⟩ := t.resolve_not_entryName hu he
      cases hul.symm.trans hd
  exact (Prod.mk.inj ((hentry hv hvl).symm.trans (hentry hw hwl))).2

/-- Where a connection touches the entry of its own path only, no file of another name changes. -/
theorem read_of_slot (htree : c'.disk.tree = c.disk.tree) (hok' : RequestOk c')
    (hslot : ∀ l, c'.disk.slot l = c.disk.slot l ∨
      c'.toConn.Settled ∧ c'.disk.tree.resolve c'.filepath = .entry l) {w : Path} (hw : slash ∉ w)
    (hne : c'.toConn.Settled → slash ∉ c'.client.filename ∧ c'.client.filename ≠ w) :
    c'.disk.read (c'.disk.tree.path w) = c.disk.read (c.disk.tree.path w) := by
  rw [htree]
  refine Disk.read_congr htree fun l hl => (hslot l).resolve_right ?_
  rintro ⟨hset, hl'⟩
  obtain ⟨hslash, hname⟩ := hne hset
  rw [hok'.filepath_eq, htree] at hl'
  exact hname (Tree.name_injective hslash hw hl' hl)

/-- A DELETE that is answered OK takes its name from the list. -/
theorem Choose.deleted_contents {d : Ctx} (h : Choose c d .ok []) (hok : ConnOk c)
    (hv : d.client.requestVerb = .delete) : some d.client.filename ∈ c.serverFiles.contents ∧
      d.serverFiles.contents = c.serverFiles.contents.erase (some d.client.filename) := by
  cases h with
  | list => cases hv
  | getOpened => cases hv
  | accepted hs =>
    rw [acceptUpload_client] at hv
    cases hv.symm.trans (hok.upload.data hs).2.2.1
  | @deleted w i hl hf hu =>
    have hname : (takeLine c (.delete w)).client.filename = w.take 255 := by
      simp [takeLine, noteRequest, Request.name?, Ctx.setClient]
    rw [removeFileFromList_client, Ctx.sysUnlink_client, hname]
    exact ⟨(searchName_found_idxOf hf).1, contents_removeFileFromList_found
      ((takeLine c (.delete w)).sysUnlink (takeLine c (.delete w)).filepath).2 _ hf⟩

/-- What a DELETE that is answered OK leaves behind. -/
theorem Choose.deleted_gone {d : Ctx} (h : Choose c d .ok []) (hg : Listed c.toGlobals)
    (hok : ConnOk c) (hok' : RequestOk (fillResponse d .ok []))
    (hv : d.client.requestVerb = .delete) :
    some d.client.filename ∉ d.serverFiles.contents ∧
      d.disk.read (d.disk.tree.path d.client.filename) = none := by
  refine ⟨(h.deleted_contents hok hv).2 ▸ hg.not_mem_erase _, ?_⟩
  cases h with
  | list => cases hv
  | getOpened => cases hv
  | accepted hs =>
    rw [acceptUpload_client] at hv
    cases hv.symm.trans (hok.upload.data hs).2.2.1
  | @deleted w i hl hf hu =>
    have hdisk := (Ctx.sysUnlink_true_disk (takeLine c (.delete w)) _ hu).2
    have hpath := hok'.filepath_eq
    generalize hd : removeFileFromList _ _ = d at hpath ⊢
    have hclient : d.client = (takeLine c (.delete w)).client := by
      rw [← hd, removeFileFromList_client]
      rfl
    have hdd : d.disk = (c.disk.unlink (takeLine c (.delete w)).filepath).2 := by
      rw [← hd, removeFileFromList_disk]
      exact hdisk
    have hfile : (fillResponse d .ok []).filepath = (takeLine c (.delete w)).filepath := by
      change snprintf 1024 (d.disk.tree.tempName ++ [slash] ++ d.client.filename) = _
      rw [hclient, hdd, Disk.unlink_tree]
      rfl
    change d.disk.read ((fillResponse d .ok []).disk.tree.path
      (fillResponse d .ok []).client.filename) = none
    rw [← hpath, hfile, hdd]
    exact Disk.read_unlink

/-- A live connection that has no file of an upload open changes the disk and the list only by
deleting a file. -/
theorem Step.disk_of_not_data (h : Step c c') (hdata : c.client.state ≠ .recvPutData)
    (hdata' : c'.client.state ≠ .recvPutData) (hc' : c'.freed = false) :
    c'.disk = c.disk ∧ c'.serverFiles = c.serverFiles ∨ c.client.state = .recvHeader ∧
      ∃ d, Choose c d .ok [] ∧ c' = fillResponse d .ok [] ∧ d.client.requestVerb = .delete := by
  cases h with
  | quiet hq => cases hq <;> exact .inl ⟨rfl, rfl⟩
  | receive hr =>
    cases hr with
    | body hs => exact absurd hs hdata
    | _ => exact .inl ⟨rfl, rfl⟩
  | begin hb =>
    cases hb with
    | put => exact .inl ⟨rfl, rfl⟩
    | upload => exact absurd rfl hdata'
  | choose hch =>
    have hchoice := hch
    cases hch with
    | deleteFailed _ _ hu =>
      exact .inl ⟨Ctx.sysUnlink_false_disk (takeLine c (.delete _)) _ hu, rfl⟩
    | deleted hl hf hu =>
      refine .inr ⟨hl.state, _, hchoice, rfl, ?_⟩
      rw [removeFileFromList_client]
      simp [takeLine, noteRequest, Request.verb, Ctx.setClient]
    | openFailed hs hlen hopen =>
      exact .inl ⟨Ctx.sysOpenWrite_none_disk (c.setClient _) c.filepath hopen, rfl⟩
    | bodyCut hs => exact absurd hs hdata
    | noFile hs => exact absurd hs hdata
    | bodyFailed hs => exact absurd hs hdata
    | extraByte hs => exact absurd hs hdata
    | accepted hs => exact absurd hs hdata
    | @listNoMemory n =>
      exact .inl ⟨buildListBuffer_disk (sentLine c n), buildListBuffer_serverFiles _⟩
    | _ => exact .inl ⟨rfl, rfl⟩
  | send hs => exact .inl ⟨hs.disk, hs.serverFiles⟩
  | close => cases hc'
  | fault => exact .inl ⟨rfl, rfl⟩

/-- A name comes into the list where its upload is accepted. -/
theorem Choose.mem_serverFiles {st : Status} {msg : List Byte} (h : Choose c c' st msg) {w : Path}
    (hw : some w ∈ c'.serverFiles.contents) : some w ∈ c.serverFiles.contents ∨
      c.client.state = .recvPutData ∧ c.client.filename = w ∧ st = .ok := by
  cases h with
  | @deleted v =>
    rcases contents_removeFileFromList ((takeLine c (.delete v)).sysUnlink
      (takeLine c (.delete v)).filepath).2 (v.take 255) with heq | heq
    · rw [heq] at hw
      exact .inl hw
    · rw [heq] at hw
      exact .inl (List.mem_of_mem_erase hw)
  | accepted hs =>
    rcases contents_addFileToList ((readExtra c).2.note (.accept c.client.filename))
      c.client.filename with heq | heq | ⟨-, heq⟩
    · exact .inl (heq ▸ hw : some w ∈ c.serverFiles.contents)
    · rcases List.mem_append.mp (heq ▸ hw : some w ∈ c.serverFiles.contents ++ [none]) with hw | hw
      · exact .inl hw
      · cases List.mem_singleton.mp hw
    · rcases List.mem_append.mp
        (heq ▸ hw : some w ∈ c.serverFiles.contents ++ [some c.client.filename]) with hw | hw
      · exact .inl hw
      · exact .inr ⟨hs, (Option.some.inj (List.mem_singleton.mp hw)).symm, rfl⟩
  | @listNoMemory n =>
    rw [buildListBuffer_serverFiles] at hw
    exact .inl hw
  | _ => exact .inl hw

theorem acceptUpload_accepted : (fillResponse (acceptUpload c) .ok []).accepted = true := by
  refine (Conn.accepted_of_log (l := [.reply .ok []]) rfl).trans ?_
  rw [Conn.accepted_of_log (acceptUpload_log c)]
  simp [Call.accepts]

/-- How an upload leaves `STATE_RECV_PUT_DATA`. -/
theorem Step.of_data (h : Step c c') (hs : c.client.state = .recvPutData)
    (hs' : c'.client.state ≠ .recvPutData) (hc' : c'.freed = false) :
    c' = fillResponse (acceptUpload c) .ok [] ∨
      ∃ d msg, Choose c d .error msg ∧ c' = fillResponse d .error msg := by
  have hne : ∀ {t}, c.client.state = t → t ≠ .recvPutData → False := fun h' hne =>
    hne (h'.symm.trans hs)
  cases h with
  | quiet hq => exact absurd (by cases hq <;> exact hs) hs'
  | receive hr =>
    cases hr with
    | header _ h' => exact (hne h' (by simp)).elim
    | size h' => exact (hne h' (by simp)).elim
    | body => exact absurd hs hs'
  | begin hb =>
    cases hb with
    | put hl => exact (hne hl.state (by simp)).elim
    | upload h' => exact (hne h' (by simp)).elim
  | choose hch =>
    have hchoice := hch
    cases hch with
    | accepted => exact .inl rfl
    | list hl => exact (hne hl.state (by simp)).elim
    | deleted hl => exact (hne hl.state (by simp)).elim
    | getOpened hl => exact (hne hl.state (by simp)).elim
    | _ => exact .inr ⟨_, _, hchoice, rfl⟩
  | send h' =>
    obtain ⟨-, -, h3, -⟩ := h'.of_sending.ne
    exact absurd hs h3
  | close => cases hc'
  | fault hl => exact (hne hl.state (by simp)).elim

/-! ### One handler -/

/-- What a name of the list rests on in `x`, where the handler of a connection started in `c`: its
own upload that has the file open, its own upload that was accepted, or what was there before. -/
inductive Backing (c x : Ctx) (w : Path) : Prop
  | busy (hlive : x.freed = false) (hs : x.client.state = .recvPutData)
      (hw : x.client.filename = w)
  | own {body : List Byte} (hacc : x.accepted = true) (hw : x.client.filename = w)
      (hread : x.disk.read (x.disk.tree.path w) = some body) (hbody : ReceivedBody x.toConn body)
  | old (hold : some w ∈ c.serverFiles.contents)
      (hown : ¬ (c.client.state = .recvPutData ∧ c.client.filename = w))
      (hread : x.disk.read (x.disk.tree.path w) = c.disk.read (c.disk.tree.path w))

/-- What is known of the connection and of the list. -/
structure Supported (c x : Ctx) : Prop where
  sound : ConnOk x ∧ HandleOk x
  listed : Listed x.toGlobals
  filled : x.accepted = false → Filled x
  received : c.accepted = true → x.accepted = true ∧
    ∀ body, ReceivedBody c.toConn body → ReceivedBody x.toConn body
  backing : ∀ w, some w ∈ x.serverFiles.contents → Backing c x w

/-- `close_and_cleanup` is called with the request as it is in `x`. -/
structure AsLeft (x k : Ctx) : Prop where
  client : k.client.filename = x.client.filename ∧ k.client.headerBuf = x.client.headerBuf ∧
    k.client.expectedSize = x.client.expectedSize
  globals : k.serverFiles = x.serverFiles ∧ k.disk = x.disk
  upload : SameUpload x.toConn k.toConn
  replies : k.replies = x.replies
  verb : k.client.requestVerb = x.client.requestVerb
  reply : ReplyOk k.toConn

theorem Close.asLeft {x k : Ctx} (h : Close x k) (hx : x.freed = false) (hr : ReplyOk x.toConn) :
    AsLeft x k :=
  ⟨⟨h.sameHeader.name, h.sameHeader.buf, by cases h <;> rfl⟩, ⟨by cases h <;> rfl, h.disk⟩,
    h.sameUpload, h.replies, h.sameHeader.verb, h.replyOk hx hr⟩

/-- What was received is the same when the connection is closed. -/
theorem AsLeft.receivedBody {x k : Ctx} (h : AsLeft x k) {body : List Byte}
    (hb : ReceivedBody x.toConn body) : ReceivedBody (closeAndCleanup k).toConn body := by
  rw [ReceivedBody, closeAndCleanup_received, closeAndCleanup_client, h.upload.received]
  change x.received = k.client.headerBuf ++ sizeBytes k.client.expectedSize ++ body
  rw [h.client.2.1, h.client.2.2]
  exact hb

/-- A connection that is closed here has sent its whole reply, if it is a PUT of a listed name. -/
def EndedWell (k : Ctx) : Prop :=
  k.client.requestVerb = .put → some k.client.filename ∈ k.serverFiles.contents →
    ReplySent k.toConn

/-- Closing a connection. -/
theorem Supported.close {x k : Ctx} (h : Supported c x) (hk : AsLeft x k) (hend : EndedWell k)
    (hother : ∀ w, some w ∈ x.serverFiles.contents → k.client.filename ≠ w →
      (closeAndCleanup k).disk.read ((closeAndCleanup k).disk.tree.path w)
        = x.disk.read (x.disk.tree.path w)) :
    ∀ w, some w ∈ (closeAndCleanup k).serverFiles.contents → Backing c (closeAndCleanup k) w := by
  intro w hw
  rw [closeAndCleanup_serverFiles, hk.globals.1] at hw
  -- the file under the name of the connection
  have hself : k.client.filename = w → (closeAndCleanup k).disk = x.disk := by
    rintro rfl
    rw [← hk.globals.1] at hw
    refine Eq.trans ?_ hk.globals.2
    rw [closeAndCleanup_disk, if_neg]
    exact fun ⟨hput, hdone⟩ => hdone ((replySent_iff hk.reply hput).mp (hend hput hw))
  have hread : (closeAndCleanup k).disk.read ((closeAndCleanup k).disk.tree.path w)
      = x.disk.read (x.disk.tree.path w) := by
    by_cases hkw : k.client.filename = w
    · rw [hself hkw]
    · exact hother w hw hkw
  cases h.backing w hw with
  | busy _ hs hxw =>
    -- a request that is being received has no reply
    exfalso
    obtain ⟨st, msg, hreplies, -⟩ := hend (hk.verb.trans (h.sound.1.upload.data hs).2.2.1) (by
      rw [hk.globals.1, hk.client.1, hxw]
      exact hw)
    cases (h.sound.1.reply.silent (.inr (.inr hs))).2.symm.trans (hk.replies.symm.trans hreplies)
  | own hacc hxw hbody hrec =>
    refine .own ?_ ?_ (hread.trans hbody) ?_
    · rw [closeAndCleanup_accepted, hk.upload.accepted]
      exact hacc
    · rw [closeAndCleanup_client]
      exact hk.client.1.trans hxw
    · exact hk.receivedBody hrec
  | old hold hown hold' => exact .old hold hown (hread.trans hold')

/-- A step in which the connection stays. -/
theorem Supported.live {x y : Ctx} (h : Supported c x) (hx : x.freed = false) (hxy : Step x y)
    (hy : y.freed = false) (hok' : ConnOk y)
    (hold : ∀ w, some w ∈ c.serverFiles.contents → slash ∉ w)
    (hplain : y.toConn.Settled → slash ∉ y.client.filename)
    (hreject : ∀ d msg, x.client.state = .recvPutData → Choose x d .error msg →
      y = fillResponse d .error msg → some x.client.filename ∉ x.serverFiles.contents) {w : Path}
    (hw : some w ∈ y.serverFiles.contents) : Backing c y w := by
  obtain ⟨hok, hh⟩ := h.sound
  by_cases hbusy : y.client.state = .recvPutData ∧ y.client.filename = w
  · exact .busy hy hbusy.1 hbusy.2
  have hname : x.client.state ≠ .recvHeader → y.client.filename = x.client.filename := fun hs =>
    (hxy.sameHeader hs).2.name
  by_cases hown : x.client.state = .recvPutData ∧ x.client.filename = w
  · -- the upload of this name comes to its end
    have hyw : y.client.filename = w := (hname (by rw [hown.1]; simp)).trans hown.2
    have hs' : y.client.state ≠ .recvPutData := fun hs' => hbusy ⟨hs', hyw⟩
    rcases hxy.of_data hown.1 hs' hy with hacc | ⟨d, msg, hch, rfl⟩
    · have hya : y.accepted = true := by
        rw [hacc]
        exact acceptUpload_accepted
      obtain ⟨body, hread, hbody, -⟩ := ((h.filled (hok.upload.data hown.1).2.1).step hok hx
        hxy).accepted hy hya
      rw [hok'.request.filepath_eq, hyw] at hread
      exact .own hya hyw hread hbody
    · exfalso
      refine hreject d msg hown.1 hch rfl (hown.2 ▸ (hch.mem_serverFiles hw).resolve_right ?_)
      exact fun h' => by cases h'.2.2
  have hmem : some w ∈ x.serverFiles.contents := by
    rcases hxy.serverFiles with heq | ⟨d, st, msg, hch, rfl⟩
    · exact heq ▸ hw
    · exact (hch.mem_serverFiles hw).resolve_right fun h' => hown ⟨h'.1, h'.2.1⟩
  cases h.backing w hmem with
  | busy _ hs hxw => exact absurd ⟨hs, hxw⟩ hown
  | own hacc hxw hread hbody =>
    obtain ⟨hya, hdisk, -, hrec⟩ := hxy.of_accepted hx hok hacc
    have hs : x.client.state ≠ .recvHeader := fun hs => by
      rcases (hok.upload.accepted hacc).2.1 with hs' | hs' <;> cases hs.symm.trans hs'
    refine .own hya ((hname hs).trans hxw) ?_ (hrec _ hbody)
    rw [hdisk fun hf => by cases hy.symm.trans hf]
    exact hread
  | old hwold hcown hread =>
    refine .old hwold hcown (Eq.trans ?_ hread)
    by_cases hyw : y.client.filename = w
    · have hdata : x.client.state ≠ .recvPutData := fun hs =>
        hown ⟨hs, (hname (by rw [hs]; simp)).symm.trans hyw⟩
      rcases hxy.disk_of_not_data hdata (fun hs' => hbusy ⟨hs', hyw⟩) hy with
        ⟨hdisk, -⟩ | ⟨-, d, hch, rfl, hv⟩
      · rw [hdisk]
      · exact absurd (hyw ▸ hw) (hch.deleted_gone h.listed hok hok'.request hv).1
    · exact read_of_slot hxy.tree hok'.request (hxy.slot hh hx) (hold w hwold)
        fun hset => ⟨hplain hset, hyw⟩

/-- **A handler and the list.** Each name that is listed after it rests on an upload under way, on
one that was accepted, or on what was there before. -/
theorem Handled.supported (h : Handled c c') (hc : c.freed = false) (hs : ConnOk c ∧ HandleOk c)
    (hlisted : Listed c.toGlobals) (hfilled : c.accepted = false → Filled c)
    (hold : ∀ w, some w ∈ c.serverFiles.contents → slash ∉ w)
    (hplain : c'.toConn.Settled → slash ∉ c'.client.filename)
    (hend : ∀ k, ClosedAt c k → c' = closeAndCleanup k → EndedWell k)
    (hreject : ∀ x d msg, Steps c x → x.freed = false → x.client.state = .recvPutData →
      Choose x d .error msg → Steps (fillResponse d .error msg) c' →
        some x.client.filename ∉ x.serverFiles.contents) : Supported c c' := by
  have hstart : Supported c c := ⟨hs, hlisted, hfilled, fun ha => ⟨ha, fun _ h => h⟩,
    fun w hw => by
      by_cases hown : c.client.state = .recvPutData ∧ c.client.filename = w
      · exact .busy hc hown.1 hown.2
      · exact .old hw hown rfl⟩
  -- the path of a name that is not the connection's own
  have hslash : ∀ {x : Ctx} {w : Path}, Supported c x → some w ∈ x.serverFiles.contents →
      x.client.filename ≠ w → slash ∉ w := fun hx hw hne => by
    cases hx.backing _ hw with
    | busy _ _ hxw => exact absurd hxw hne
    | own _ hxw => exact absurd hxw hne
    | old hwold => exact hold _ hwold
  cases h with
  | steps hsteps =>
    refine Chain.between (P := Supported c) (fun x y hcx ⟨hx, hxy⟩ hyc hsup => ?_) hsteps hstart
    have hsound := connOk_handleOk_stable.step x y hx hsup.sound hxy
    have hpy : y.toConn.Settled → slash ∉ y.client.filename := fun hset => by
      obtain ⟨hset', hsame⟩ := (Steps.progress hyc).settled hset
      rw [← hsame.name]
      exact hplain hset'
    refine ⟨hsound, listed_shared.step x y hx hsup.sound hsup.listed hxy, fun ha => ?_,
      fun ha => ?_, fun w hw => ?_⟩
    · have hxa : x.accepted = false := Bool.eq_false_of_not_eq_true fun hxa => by
        cases ha.symm.trans (Conn.accepted_mono hxy.log hxa)
      exact (hsup.filled hxa).step hsup.sound.1 hx hxy
    · obtain ⟨hxa, hbody⟩ := hsup.received ha
      obtain ⟨hya, -, -, hrec⟩ := hxy.of_accepted hx hsup.sound.1 hxa
      exact ⟨hya, fun body hb => hrec body (hbody body hb)⟩
    · by_cases hy : y.freed = true
      · -- a destroyed connection takes no further step
        obtain rfl : c' = y := by
          rcases Relation.ReflTransGen.cases_head hyc with heq | ⟨z, ⟨hlive, -⟩, -⟩
          · exact heq.symm
          · cases hy.symm.trans hlive
        obtain ⟨k, hk, rfl⟩ := hxy.close_of_freed hx hy
        refine hsup.close (hk.asLeft hx hsup.sound.1.reply) (hend k (.handler hcx hx hk) rfl)
          (fun w hw hne => ?_) w hw
        refine read_of_slot (Step.close hk).tree hsound.1.request
          ((Step.close hk).slot hsup.sound.2 hx) (hslash hsup hw (hk.sameHeader.name ▸ hne))
          fun hset => ⟨hpy hset, ?_⟩
        rw [closeAndCleanup_client]
        exact hne
      · refine hsup.live hx hxy (Bool.eq_false_of_not_eq_true hy) hsound.1 hold hpy
          (fun d msg hs hch heq => ?_) hw
        subst heq
        exact hreject x d msg hcx hx hs hch hyc
  | closed =>
    have hsound := connOk_handleOk_stable.close c hc hs
    have hleft : AsLeft c c := ⟨⟨rfl, rfl, rfl⟩, ⟨rfl, rfl⟩, .refl _, rfl, rfl, hs.1.reply⟩
    refine ⟨hsound, listed_shared.close c hc hs hlisted, fun _ => .of_freed rfl, fun ha => ?_,
      hstart.close hleft (hend c .error rfl) fun w hw hne => ?_⟩
    · exact ⟨(closeAndCleanup_accepted c).trans ha, fun body hb => hleft.receivedBody hb⟩
    · refine read_of_slot (closeAndCleanup_grows c).tree hsound.1.request (Handled.closed.slot hs.2)
        (hslash hstart hw hne) fun hset => ⟨hplain hset, ?_⟩
      rw [closeAndCleanup_client]
      exact hne

end Steps

/-! ### Runs -/

/-- What a name of the list rests on: an upload of it that has the file open, or its file, which
holds the body of an upload of it that was accepted. -/
inductive Backed (s : Server) (w : Path) : Prop
  | busy {u : Conn} (hu : u ∈ s.conns) (hlive : u.freed = false)
      (hs : u.client.state = .recvPutData) (hw : u.client.filename = w)
  | stored {u : Conn} {body : List Byte} (hu : u ∈ s.conns) (hacc : u.accepted = true)
      (hw : u.client.filename = w) (hread : s.disk.read (s.disk.tree.path w) = some body)
      (hbody : ReceivedBody u body)

/-- The names have no slash. -/
def PlainNames (s : Server) : Prop := ∀ u ∈ s.conns, slash ∉ u.client.filename

/-- While an upload has its file open, other connections leave its entry as it is. -/
def Undisturbed (s s' : Server) : Prop :=
  ∀ (j : ConnId) (u : Conn) (l : Loc), s.conns[j]? = some u → s'.conns[j]? = some u →
    u.client.requestVerb = .put → u.client.fileFd.isSome → s.target u = .entry l →
      s'.disk.slot l = s.disk.slot l

/-- Between two states `close_and_cleanup` is called in the context `k`. -/
def Closes (s s' : Server) (k : Ctx) : Prop :=
  ∃ (j : ConnId) (u : Conn), s.conns[j]? = some u ∧ u.freed = false ∧ ClosedAt (s.ctx u) k ∧
    s'.conns[j]? = some (closeAndCleanup k).toConn

/-- Between two states `recv_put_data` rejects an upload in the context `x`. -/
def Rejects (s s' : Server) (x : Ctx) : Prop :=
  ∃ (j : ConnId) (u : Conn) (d e : Ctx) (msg : List Byte), s.conns[j]? = some u ∧
    u.freed = false ∧ Steps (s.ctx u) x ∧ x.freed = false ∧ x.client.state = .recvPutData ∧
      Choose x d .error msg ∧ Steps (fillResponse d .error msg) e ∧ s'.conns[j]? = some e.toConn

/-- A rejected upload has an ERROR reply. -/
theorem Rejects.replies {s s' : Server} {x : Ctx} (h : Rejects s s' x) :
    ∃ u ∈ s'.conns, ∃ msg, (.error, msg) ∈ u.replies := by
  obtain ⟨j, u, d, e, msg, -, -, -, -, -, -, hrest, hj'⟩ := h
  refine ⟨e.toConn, List.mem_of_getElem? hj', msg, ?_⟩
  refine (Conn.replies_mono (Steps.progress hrest).log).subset ?_
  rw [Conn.replies_of_log (l := [.reply .error msg]) rfl]
  exact List.mem_append_right _ (List.mem_singleton_self _)

/-- Nothing happens to the file of a listed name behind the back of the list: nobody else touches an
entry that an upload has open, whoever is closed and has a listed name has sent its reply, and no
upload of a listed name is rejected. -/
structure Careful (s s' : Server) : Prop where
  undisturbed : Undisturbed s s'
  ends : ∀ k, Closes s s' k → EndedWell k
  keeps : ∀ x, Rejects s s' x → some x.client.filename ∉ x.serverFiles.contents

/-- The list and the uploads of a state. -/
structure InOrder (s : Server) : Prop where
  filled : ∀ u ∈ s.conns, u.accepted = false → Filled (s.ctx u)
  backed : ∀ w, some w ∈ s.serverFiles.contents → Backed s w

section Runs

variable {s : Server} {a : Action}

/-- The files of the other uploads. -/
theorem Filled.undisturbed {s' : Server} {u : Conn} (h : Filled (s.ctx u)) (hok : UploadOk u)
    (hacc : u.accepted = false) (htree : s'.disk.tree = s.disk.tree)
    (hslot : u.client.requestVerb = .put → u.client.fileFd.isSome →
      ∀ l, s.target u = .entry l → s'.disk.slot l = s.disk.slot l) : Filled (s'.ctx u) := by
  by_cases hf : u.freed = true
  · exact .of_freed hf
  by_cases hs : u.client.state = .recvPutData
  · obtain ⟨l, gen, hu, -⟩ := h.data (Bool.eq_false_of_not_eq_true hf) hs
    exact h.congr rfl rfl (.refl _) htree
      (hslot (hok.data hs).2.2.1 (Option.isSome_of_mem hu.fd))
  · exact .of_not_accepted hs hacc

/-- **A handler** is called, or a connection is closed. -/
theorem InOrder.handled {s' : Server} (h : InOrder s) (hs : Reachable s) (hplain : PlainNames s)
    (hplain' : PlainNames s') (hcare : Careful s s') (htree : s'.disk.tree = s.disk.tree)
    {j : ConnId} {conn : Conn} {c : Ctx} (hj : s.conns[j]? = some conn) (hlive : conn.freed = false)
    (hc : Handled (s.ctx conn) c) (hconns : s'.conns = (s.put j c).conns)
    (hdisk : s'.disk = c.disk) (hfiles : s'.serverFiles = c.serverFiles) : InOrder s' := by
  have hsound := connOk_handleOk_stable.reachable hs
  have hold : ∀ w, some w ∈ s.serverFiles.contents → slash ∉ w := fun w hw => by
    cases h.backed w hw with
    | busy hu _ _ hw => exact hw ▸ hplain _ hu
    | stored hu _ hw => exact hw ▸ hplain _ hu
  have hself : s'.conns[j]? = some c.toConn := by rw [hconns, Server.put_conns_self c hj]
  have hother : ∀ {k : ConnId}, k ≠ j → s'.conns[k]? = s.conns[k]? := fun hkj => by
    rw [hconns, Server.put_conns_of_ne c hkj]
  have hmem := List.mem_of_getElem? hj
  have hsup : Supported (s.ctx conn) c := hc.supported hlive (hsound conn hmem) hs.listed
    (h.filled conn hmem) hold (fun _ => hplain' _ (List.mem_of_getElem? hself))
    (fun k hk heq => hcare.ends k ⟨j, conn, hj, hlive, hk, heq ▸ hself⟩)
    fun x d msg hx hlive' hs' hch hrest =>
      hcare.keeps x ⟨j, conn, d, c, msg, hj, hlive, hx, hlive', hs', hch, hrest, hself⟩
  constructor
  · intro u hu hacc
    obtain ⟨k, hk⟩ := List.getElem?_of_mem hu
    by_cases hkj : k = j
    · subst hkj
      obtain rfl := Option.some.inj (hself.symm.trans hk)
      exact (hsup.filled hacc).congr rfl rfl (.refl _) (congrArg Disk.tree hdisk) fun l _ =>
        congrArg (Disk.slot · l) hdisk
    · have hk' := (hother hkj).symm.trans hk
      have hu' := List.mem_of_getElem? hk'
      exact (h.filled u hu' hacc).undisturbed (hsound u hu').1.upload hacc htree
        fun hv hf l ht => hcare.undisturbed k u l hk' hk hv hf ht
  · intro w hw
    rw [hfiles] at hw
    cases hsup.backing w hw with
    | busy hlive' hs' hw => exact .busy (List.mem_of_getElem? hself) hlive' hs' hw
    | own hacc hw hread hbody =>
      exact .stored (List.mem_of_getElem? hself) hacc hw (by rw [hdisk]; exact hread) hbody
    | old hwold hown hread =>
      cases h.backed w hwold with
      | @busy u hu hl hs' huw =>
        -- that upload is not the connection that ran, so it is still there
        obtain ⟨k, hk⟩ := List.getElem?_of_mem hu
        have hkj : k ≠ j := by
          rintro rfl
          obtain rfl := Option.some.inj (hj.symm.trans hk)
          exact hown ⟨hs', huw⟩
        exact .busy (List.mem_of_getElem? ((hother hkj).trans hk)) hl hs' huw
      | @stored u body hu hacc huw hread' hbody =>
        have hread'' : s'.disk.read (s'.disk.tree.path w) = some body := by
          rw [hdisk]
          exact hread.trans hread'
        obtain ⟨k, hk⟩ := List.getElem?_of_mem hu
        by_cases hkj : k = j
        · subst hkj
          obtain rfl := Option.some.inj (hj.symm.trans hk)
          obtain ⟨hacc', hrec⟩ := hsup.received hacc
          have hset : conn.Settled := .inr fun hs' => by
            rcases ((hsound conn hmem).1.upload.accepted hacc).2.1 with hs'' | hs'' <;>
              cases hs'.symm.trans hs''
          have hname := ((hc.progress hlive).settled hset).2.name
          exact .stored (List.mem_of_getElem? hself) hacc' (hname.trans huw) hread''
            (hrec _ hbody)
        · exact .stored (List.mem_of_getElem? ((hother hkj).trans hk)) hacc huw hread'' hbody

/-- **One action.** -/
theorem InOrder.act (hs : Reachable s) (h : InOrder s) (hplain : PlainNames s)
    (hplain' : PlainNames (s.act a)) (hcare : Careful s (s.act a)) : InOrder (s.act a) := by
  have ht := Server.act_turn hs.mapInv a
  have htree := (Server.turn_le ht).disk.tree
  generalize s.act a = s' at ht htree hplain' hcare
  cases ht with
  | idle => exact h
  | @accept fd script rest grow hfd =>
    constructor
    · intro u hu hacc
      rcases List.mem_append.mp hu with hu | hu
      · exact (h.filled u hu hacc).congr rfl rfl (.refl _) rfl fun _ _ => rfl
      · obtain rfl := List.mem_singleton.mp hu
        exact .of_not_accepted (fun hs => by cases hs) rfl
    · intro w hw
      cases h.backed w hw with
      | busy hu hl hs hw => exact .busy (List.mem_append_left _ hu) hl hs hw
      | stored hu hacc hw hread hbody =>
        exact .stored (List.mem_append_left _ hu) hacc hw hread hbody
  | handle hget hj hlive hc =>
    exact h.handled hs hplain hplain' hcare htree hj hlive (.steps hc) rfl rfl rfl
  | error hev hget hj hlive =>
    exact h.handled hs hplain hplain' hcare htree hj hlive .closed rfl rfl rfl
  | noMemory =>
    refine ⟨fun u hu hacc => (h.filled u hu hacc).congr rfl rfl (.refl _) rfl fun _ _ => rfl,
      fun w hw => ?_⟩
    cases h.backed w hw with
    | busy hu hl hs hw => exact .busy hu hl hs hw
    | stored hu hacc hw hread hbody => exact .stored hu hacc hw hread hbody
  | useAfterFree hev hget hj hlive hc =>
    exact h.handled hs hplain hplain' hcare htree hj hlive (.steps hc) rfl rfl rfl

theorem InOrder.run {k : Disk} (hk : k.Fresh) {acts : List Action}
    (hplain : ∀ pre, pre <+: acts → PlainNames ((Server.boot k).run pre))
    (hsteps : ∀ pre a post, acts = pre ++ a :: post →
      Careful ((Server.boot k).run pre) ((Server.boot k).run (pre ++ [a]))) :
    InOrder ((Server.boot k).run acts) := by
  have hboot : InOrder (Server.boot k) :=
    ⟨fun u hu => (by cases hu), fun w hw => absurd hw List.not_mem_nil⟩
  refine Chain.run_between (I := InOrder) (Server.boot k) acts (fun pre a post heq h => ?_) hboot
  have hcare := hsteps pre a post heq
  have hplain' := hplain (pre ++ [a]) ⟨post, by rw [heq, List.append_assoc]; rfl⟩
  rw [Server.run_concat] at hcare hplain'
  exact InOrder.act ⟨k, pre, hk, rfl⟩ h (hplain pre ⟨a :: post, heq.symm⟩) hplain' hcare

/-- What the list says of the name `w` is true: its file is there, with the body of an accepted
upload of it, and neither GET nor DELETE answers that there is none. -/
structure Advertised (s : Server) (w : Path) : Prop where
  stored : ∃ u ∈ s.conns, u.accepted = true ∧ u.client.filename = w ∧
    ∃ body, ReceivedBody u body ∧ s.disk.lookup (s.disk.tree.temp, w) = some body
  get : ∀ c : Ctx, c.toGlobals = s.toGlobals → c.client.filename = w →
    c.client.requestVerb = .get → FilesOk c →
      (startSendGet c).replies = c.replies ++ [(.ok, [])]
  delete : ∀ c : Ctx, c.toGlobals = s.toGlobals → c.client.filename = w →
    c.client.requestVerb = .delete → FilesOk c →
      (deleteRequest c).replies ≠ c.replies ++ [(.error, errNoSuchFile)]

/-- DELETE of a listed name whose file exists. -/
theorem deleteRequest_replies_ne {c : Ctx}
    (hlisted : some c.client.filename ∈ c.serverFiles.contents)
    (hread : (c.disk.read c.filepath).isSome) (hverb : c.client.requestVerb = .delete)
    (hfiles : FilesOk c) : (deleteRequest c).replies ≠ c.replies ++ [(.error, errNoSuchFile)] := by
  have hput : c.client.requestVerb ≠ .put := by
    rw [hverb]
    decide
  have hlist : c.client.requestVerb ≠ .list := by
    rw [hverb]
    decide
  let d := c.use (.find c.client.filename)
  unfold deleteRequest
  dsimp only
  split
  · exact fun h => absurd (congrArg List.length h) (by simp [Conn.replies, Ctx.use])
  · next habsent => exact absurd hlisted (searchName_absent_not_mem habsent)
  · have hu : (d.sysUnlink d.filepath).1 = true := by
      rcases d.sysUnlink_cases d.filepath with ⟨-, -, hfail⟩ | ⟨hu, -⟩
      · exact absurd hfail hfiles.1
      · rw [hu, Disk.unlink_fst]
        exact hread
    rw [if_pos hu, Ctx.sysUnlink_client]
    obtain ⟨-, hreplies⟩ := prepareAndSendResponse_unchanged
      (d := removeFileFromList (d.sysUnlink d.filepath).2 d.client.filename)
      (by rw [removeFileFromList_client]; exact hput)
      (by rw [removeFileFromList_client]; exact hlist) .ok []
    have hremove : (removeFileFromList (d.sysUnlink d.filepath).2
        d.client.filename).replies = c.replies := by
      rw [Conn.replies, removeFileFromList_log]
      exact replies_of_single (Ctx.sysUnlink_log d _) rfl
    rw [hreplies, hremove]
    intro h
    cases (Prod.mk.inj (List.singleton_inj.mp (List.append_cancel_left h))).1

theorem Backed.truthful (hs : Reachable s) (hplain : PlainNames s)
    (hidle : ∀ u ∈ s.conns, u.freed = false → u.client.requestVerb ≠ .put) {w : Path}
    (hw : some w ∈ s.serverFiles.contents) (h : Backed s w) : Advertised s w := by
  have hsound := connOk_handleOk_stable.reachable hs
  cases h with
  | busy hu hlive hs => exact absurd ((hsound _ hu).1.upload.data hs).2.2.1 (hidle _ hu hlive)
  | @stored u body hu hacc huw hread hbody =>
    have hentry : EntryName w := by
      by_contra hne
      obtain ⟨d, hd⟩ := s.disk.tree.resolve_not_entryName (huw ▸ hplain u hu) hne
      rw [Disk.read, hd] at hread
      cases hread
    have hlen : w.length ≤ 255 := by
      rw [← huw]
      exact (hsound u hu).1.request.name ▸ length_nameOf_le _
    have hfile : ∀ c : Ctx, c.toGlobals = s.toGlobals → c.client.filename = w →
        c.disk.read c.filepath = some body := fun c hg hcw => by
      have hdisk : c.disk = s.disk := congrArg Globals.disk hg
      rw [filepath_of_length_le (hcw ▸ hlen), hcw, hdisk]
      exact hread
    refine ⟨⟨u, hu, hacc, huw, body, hbody, ?_⟩, fun c hg hcw hverb hfiles => ?_,
      fun c hg hcw hverb hfiles => ?_⟩
    · rw [← hread]
      exact (s.disk.read_entry (s.disk.tree.resolve_entryName hentry)).symm
    · obtain ⟨l, hl, hlink⟩ := Disk.read_isSome_iff.mp (Option.isSome_of_mem (hfile c hg hcw))
      rw [startSendGet_replies hverb hfiles, if_pos]
      rw [Disk.openRead_isSome_entry hl]
      exact hlink
    · refine deleteRequest_replies_ne ?_ (Option.isSome_of_mem (hfile c hg hcw)) hverb hfiles
      rw [hcw, show c.serverFiles = s.serverFiles from congrArg Globals.serverFiles hg]
      exact hw

end Runs

/-- **The list never advertises a file that is not there** in a run where nobody else touches the
entry of an upload that has its file open, where no upload of a listed name is rejected behind its
open, and where the replies to listed uploads are sent to the end. -/
theorem advertised {k : Disk} (hk : k.Fresh) {acts : List Action}
    (hplain : ∀ pre, pre <+: acts → PlainNames ((Server.boot k).run pre))
    (hsteps : ∀ pre a post, acts = pre ++ a :: post →
      Careful ((Server.boot k).run pre) ((Server.boot k).run (pre ++ [a])))
    (hidle : ∀ u ∈ ((Server.boot k).run acts).conns, u.freed = false →
      u.client.requestVerb ≠ .put) {w : Path}
    (hw : some w ∈ ((Server.boot k).run acts).serverFiles.contents) :
    Advertised ((Server.boot k).run acts) w :=
  ((InOrder.run hk hplain hsteps).backed w hw).truthful ⟨k, acts, hk, rfl⟩
    (hplain acts ⟨[], List.append_nil _⟩) hidle hw

/-- `x` is uploaded, and a second client begins an upload of `x`; `last` is its second event. -/
def twiceX (rest : List RxItem) (last : Events) : List Action :=
  [.accept 5 ⟨pushBack (ascii "PUT x\n" ++ sizeBytes 2 ++ ascii "hi") [], [.room 3], [], []⟩,
    .event 5 .onRead, .event 5 .onRead,
    .accept 6 ⟨pushBack (ascii "PUT x\n") rest, [.room 3], [], []⟩, .event 6 .onRead,
    .event 6 last]

/-- Both uploads are answered with OK. -/
def bothUploaded : List Action := twiceX (pushBack (sizeBytes 2 ++ ascii "no") []) .onRead

/-- Each upload is opened and closed in one event. -/
theorem bothUploaded_closed : ∀ k ≤ 6,
    ∀ u ∈ ((Server.boot bareDisk).run (bothUploaded.take k)).conns,
      u.client.fileFd.isSome = false ∧ u.script.mem = [] ∧
        (u.client.filename = ascii "x" ∨ u.opened = false ∧ u.client.filename = []) := by
  decide +kernel

theorem bothUploaded_answered : ∀ k ≤ 6,
    ∀ u ∈ ((Server.boot bareDisk).run (bothUploaded.take k)).conns,
      u.freed = false ∧ u.replies = [] ∨
        u.replies = [(.ok, [])] ∧ u.sent = responseText .ok [] := by
  decide +kernel

theorem bothUploaded_closes {n : Nat} (hn : n < 6) {k : Ctx}
    (h : Closes ((Server.boot bareDisk).run (bothUploaded.take n))
      ((Server.boot bareDisk).run (bothUploaded.take (n + 1))) k) :
    k.replies = [(.ok, [])] ∧ ReplySent k.toConn := by
  obtain ⟨j, u, -, -, -, hj'⟩ := h
  rcases bothUploaded_answered (n + 1) hn _ (List.mem_of_getElem? hj') with
    ⟨hlive, -⟩ | ⟨hreplies, hsent⟩
  · cases hlive
  · rw [closeAndCleanup_replies] at hreplies
    rw [closeAndCleanup_sent] at hsent
    exact ⟨hreplies, .ok, [], hreplies, hsent⟩

theorem bothUploaded_rejects {n : Nat} (hn : n < 6) (x : Ctx) :
    ¬ Rejects ((Server.boot bareDisk).run (bothUploaded.take n))
      ((Server.boot bareDisk).run (bothUploaded.take (n + 1))) x := fun h => by
  obtain ⟨u, hu, msg, hmem⟩ := h.replies
  rcases bothUploaded_answered (n + 1) hn u hu with ⟨-, hnil⟩ | ⟨hreplies, -⟩
  · rw [hnil] at hmem
    cases hmem
  · rw [hreplies] at hmem
    cases List.mem_singleton.mp hmem

theorem advertised_twice :
    Advertised ((Server.boot bareDisk).run bothUploaded) (ascii "x") := by
  refine advertised bareDisk_fresh (fun pre hpre u hu => ?_) ((Chain.forall_step_iff
    (P := fun pre pre' => Careful ((Server.boot bareDisk).run pre)
      ((Server.boot bareDisk).run pre'))).mpr fun n hn => ⟨fun j u l hj _ _ hf _ => ?_,
    fun k hk _ _ => (bothUploaded_closes hn hk).2, fun x hx => absurd hx (bothUploaded_rejects hn x)⟩)
    (by decide +kernel) (by decide +kernel)
  · rw [List.prefix_iff_eq_take.mp hpre] at hu
    rcases (bothUploaded_closed _ hpre.length_le u hu).2.2 with h | ⟨-, h⟩ <;> rw [h] <;> decide
  · rw [(bothUploaded_closed n (Nat.le_of_lt hn) u (List.mem_of_getElem? hj)).1] at hf
    cases hf

/-- The second client resets its connection before it sends a size: the file is gone, and the name
stays in the list. -/
theorem not_advertised_resetUpload : ¬ ∀ k : Disk, k.Fresh → ∀ acts : List Action,
    (∀ pre, pre <+: acts → PlainNames ((Server.boot k).run pre)) →
    (∀ u ∈ ((Server.boot k).run acts).conns, u.freed = false → u.client.requestVerb ≠ .put) →
    ∀ w, some w ∈ ((Server.boot k).run acts).serverFiles.contents →
      ∃ body, ((Server.boot k).run acts).disk.lookup
        (((Server.boot k).run acts).disk.tree.temp, w) = some body := by
  intro h
  obtain ⟨body, hbody⟩ := h bareDisk bareDisk_fresh (twiceX [] .onError)
    (fun pre hpre => by
      have hall : ∀ k ≤ 6, PlainNames ((Server.boot bareDisk).run
          ((twiceX [] .onError).take k)) := by
        unfold PlainNames
        decide +kernel
      rw [List.prefix_iff_eq_take.mp hpre]
      exact hall _ hpre.length_le) (by decide +kernel) (ascii "x") (by decide +kernel)
  have hnone : ((Server.boot bareDisk).run (twiceX [] .onError)).disk.lookup
      (((Server.boot bareDisk).run (twiceX [] .onError)).disk.tree.temp, ascii "x")
        = none := by decide +kernel
  cases hnone.symm.trans hbody

end FileServer
