/-
  Which READ events come to a reply.

  A reading loop ends with a reply, waits for more input, or ends with its connection.
  Which of these it is depends on the record, the script, the list and the disk alone,
  and `Replies` says it of these: of a header by the bytes at hand, of the size field
  and the body by the reads and the file operations that the script has for them.
-/
import FileServer.Equiv.Header

namespace FileServer

open Loop

/-! ### Headers -/

/-- How many bytes the header loop still stores. -/
def headerRoom (k : Client) : Nat := maxHeaderLen - 1 - k.headerLen

/-- The header loop comes to a newline. -/
def LineReady (c : Ctx) : Prop :=
  c.client.state = .recvHeader ∧ newline ∈ (ready c.script.rx).take (headerRoom c.client)

/-- The header once the newline at hand is stored. -/
def headerAtHand (c : Ctx) : List Byte :=
  c.client.headerBuf ++ beforeChar newline (ready c.script.rx) ++ [newline]

/-- The line at hand asks for the list. -/
def AsksList (c : Ctx) : Prop := LineReady c ∧ requestOf (headerAtHand c) = some .list

/-- The request is answered as soon as its line is complete: it is no PUT, and no DELETE that comes
to a `NULL` element. -/
def Request.Immediate (names : List (Option Path)) : Request → Prop
  | .put _ => False
  | .delete w => searchName (w.take 255) 0 names ≠ .null
  | _ => True

/-! ### Size fields and bodies -/

/-- `pwrite` writes all of `n` bytes. -/
def FileItem.takes (n : Nat) : FileItem → Bool
  | .ok => true
  | .short m => n ≤ m
  | .fail => false

/-- With `left` bytes of its body to come, a READ event completes an upload or breaks it off. -/
inductive BodyEnds : Nat → Script → Prop
  | complete {s : Script} : BodyEnds 0 s
  | interrupted {left : Nat} {s : Script} (hleft : 0 < left)
      (hr : (s.read (min bufferSize left)).1 = .eintr)
      (h : BodyEnds left (s.read (min bufferSize left)).2) : BodyEnds left s
  | cut {left : Nat} {s : Script} (hleft : 0 < left)
      (hr : (s.read (min bufferSize left)).1.Ended) : BodyEnds left s
  | refused {left : Nat} {s : Script} {bs : List Byte} (hleft : 0 < left)
      (hr : (s.read (min bufferSize left)).1 = .bytes bs) (hne : bs ≠ [])
      (hw : (s.read (min bufferSize left)).2.file.1.takes bs.length = false) : BodyEnds left s
  | stored {left : Nat} {s : Script} {bs : List Byte} (hleft : 0 < left)
      (hr : (s.read (min bufferSize left)).1 = .bytes bs) (hne : bs ≠ [])
      (hw : (s.read (min bufferSize left)).2.file.1.takes bs.length = true)
      (h : BodyEnds (left - bs.length) (s.read (min bufferSize left)).2.file.2) : BodyEnds left s

/-- With `got` bytes of the size field received, and `size` read from them, a READ event opens the
file `p` on `k` and comes to the end of the upload, or does not get there. -/
inductive SizeEnds (k : Disk) (p : Path) : Nat → Nat → Script → Prop
  | interrupted {size got : Nat} {s : Script} (hgot : got < sizeLen)
      (hr : (s.read (sizeLen - got)).1 = .eintr)
      (h : SizeEnds k p size got (s.read (sizeLen - got)).2) : SizeEnds k p size got s
  | cut {size got : Nat} {s : Script} (hgot : got < sizeLen)
      (hr : (s.read (sizeLen - got)).1.Ended) : SizeEnds k p size got s
  | more {size got : Nat} {s : Script} {bs : List Byte} (hgot : got < sizeLen)
      (hr : (s.read (sizeLen - got)).1 = .bytes bs) (hne : bs ≠ [])
      (h : SizeEnds k p (pokeSize size got bs) (got + bs.length) (s.read (sizeLen - got)).2) :
      SizeEnds k p size got s
  | refused {size got : Nat} {s : Script} (hgot : ¬ got < sizeLen)
      (ho : s.file.1 = .fail ∨ (k.openWrite p).1 = none) : SizeEnds k p size got s
  | opened {size got : Nat} {s : Script} (hgot : ¬ got < sizeLen)
      (ho : ¬ (s.file.1 = .fail ∨ (k.openWrite p).1 = none)) (h : BodyEnds size s.file.2) :
      SizeEnds k p size got s

/-- A READ event in `c` comes to a reply. -/
inductive Replies (c : Ctx) : Prop
  | line {q : Request} (hl : LineReady c) (hq : requestOf (headerAtHand c) = some q)
      (ha : q.Immediate c.serverFiles.contents)
  | tooLong (hs : c.client.state = .recvHeader)
      (hlen : headerRoom c.client ≤ (ready c.script.rx).length) (hl : ¬ LineReady c)
  | size (hs : c.client.state = .recvPutSize)
      (h : SizeEnds c.disk c.filepath c.client.expectedSize c.client.bytesTransferred c.script)
  | body (hs : c.client.state = .recvPutData)
      (h : BodyEnds (c.client.expectedSize - c.client.bytesTransferred) c.script)

section Scripts

variable {k : Disk} {p : Path} {left size got : Nat} {s : Script} {bs : List Byte}

theorem ReadResult.Ended.ne_bytes {r : ReadResult} (h : r.Ended) (hne : bs ≠ []) :
    r ≠ .bytes bs := by
  rintro rfl
  rcases h with h | h | h
  · cases h
  · cases h
  · exact hne (ReadResult.bytes.inj h)

theorem bodyEnds_eintr (hleft : 0 < left) (hr : (s.read (min bufferSize left)).1 = .eintr) :
    BodyEnds left s ↔ BodyEnds left (s.read (min bufferSize left)).2 := by
  refine ⟨fun h => ?_, .interrupted hleft hr⟩
  cases h with
  | complete => cases hleft
  | interrupted _ _ h => exact h
  | cut _ hend => rcases hend with h | h | h <;> cases hr.symm.trans h
  | refused _ hbytes => cases hr.symm.trans hbytes
  | stored _ hbytes => cases hr.symm.trans hbytes

theorem not_bodyEnds_eagain (hleft : 0 < left)
    (hr : (s.read (min bufferSize left)).1 = .eagain) : ¬ BodyEnds left s := by
  intro h
  cases h with
  | complete => cases hleft
  | interrupted _ heintr => cases hr.symm.trans heintr
  | cut _ hend => rcases hend with h | h | h <;> cases hr.symm.trans h
  | refused _ hbytes => cases hr.symm.trans hbytes
  | stored _ hbytes => cases hr.symm.trans hbytes

theorem bodyEnds_stored (hleft : 0 < left) (hr : (s.read (min bufferSize left)).1 = .bytes bs)
    (hne : bs ≠ []) (hw : (s.read (min bufferSize left)).2.file.1.takes bs.length = true) :
    BodyEnds left s ↔ BodyEnds (left - bs.length) (s.read (min bufferSize left)).2.file.2 := by
  refine ⟨fun h => ?_, .stored hleft hr hne hw⟩
  cases h with
  | complete => cases hleft
  | interrupted _ heintr => cases hr.symm.trans heintr
  | cut _ hend => exact absurd hr (hend.ne_bytes hne)
  | refused _ hbytes _ hw' =>
    obtain rfl := ReadResult.bytes.inj (hr.symm.trans hbytes)
    cases hw.symm.trans hw'
  | stored _ hbytes _ _ h =>
    obtain rfl := ReadResult.bytes.inj (hr.symm.trans hbytes)
    exact h

theorem sizeEnds_eintr (hgot : got < sizeLen) (hr : (s.read (sizeLen - got)).1 = .eintr) :
    SizeEnds k p size got s ↔ SizeEnds k p size got (s.read (sizeLen - got)).2 := by
  refine ⟨fun h => ?_, .interrupted hgot hr⟩
  cases h with
  | interrupted _ _ h => exact h
  | cut _ hend => rcases hend with h | h | h <;> cases hr.symm.trans h
  | more _ hbytes => cases hr.symm.trans hbytes
  | refused hno => exact absurd hgot hno
  | opened hno => exact absurd hgot hno

theorem not_sizeEnds_eagain (hgot : got < sizeLen)
    (hr : (s.read (sizeLen - got)).1 = .eagain) : ¬ SizeEnds k p size got s := by
  intro h
  cases h with
  | interrupted _ heintr => cases hr.symm.trans heintr
  | cut _ hend => rcases hend with h | h | h <;> cases hr.symm.trans h
  | more _ hbytes => cases hr.symm.trans hbytes
  | refused hno => exact absurd hgot hno
  | opened hno => exact absurd hgot hno

theorem sizeEnds_more (hgot : got < sizeLen) (hr : (s.read (sizeLen - got)).1 = .bytes bs)
    (hne : bs ≠ []) : SizeEnds k p size got s ↔
      SizeEnds k p (pokeSize size got bs) (got + bs.length) (s.read (sizeLen - got)).2 := by
  refine ⟨fun h => ?_, .more hgot hr hne⟩
  cases h with
  | interrupted _ heintr => cases hr.symm.trans heintr
  | cut _ hend => exact absurd hr (hend.ne_bytes hne)
  | more _ hbytes _ h =>
    obtain rfl := ReadResult.bytes.inj (hr.symm.trans hbytes)
    exact h
  | refused hno => exact absurd hgot hno
  | opened hno => exact absurd hgot hno

theorem sizeEnds_opened (hgot : ¬ got < sizeLen)
    (ho : ¬ (s.file.1 = .fail ∨ (k.openWrite p).1 = none)) :
    SizeEnds k p size got s ↔ BodyEnds size s.file.2 := by
  refine ⟨fun h => ?_, .opened hgot ho⟩
  cases h with
  | interrupted hlt => exact absurd hlt hgot
  | cut hlt => exact absurd hlt hgot
  | more hlt => exact absurd hlt hgot
  | refused _ hno => exact absurd hno ho
  | opened _ _ h => exact h

end Scripts

/-! ### The reading loops -/

/-- In `t` the reply `st` is chosen: it is the OK of a LIST exactly if the line at hand in `c` asks
for the list, and nothing was allocated before. -/
structure Chosen (c t : Ctx) (st : Status) : Prop extends Ahead c t where
  list : st = .ok ∧ t.client.requestVerb = .list ↔ AsksList c
  names : AsksList c → t.serverFiles = c.serverFiles ∧ t.script.mem = c.script.mem

/-- Where a READ event leaves a connection that receives. -/
inductive ReadEnd (c : Ctx) : Ctx → Prop
  | silent {c' : Ctx} (h : ¬ Replies c) (hs : c'.freed = true ∨ c'.client.state.Receiving) :
      ReadEnd c c'
  | reply {t : Ctx} {st : Status} {msg : List Byte} (h : Replies c) (ht : Chosen c t st) :
      ReadEnd c (prepareAndSendResponse t st msg)

section Loops

variable {c t : Ctx} {st : Status} {msg : List Byte}

theorem not_asksList (hs : c.client.state ≠ .recvHeader) : ¬ AsksList c := fun h => hs h.1.1

theorem Ahead.chosen (h : Ahead c t) (hno : ¬ AsksList c) (hv : t.client.requestVerb ≠ .list) :
    Chosen c t st :=
  ⟨h, iff_of_false (fun hl => hv hl.2) hno, fun hl => absurd hl hno⟩

theorem Ahead.chosen_error (h : Ahead c t) (hno : ¬ AsksList c) : Chosen c t .error :=
  ⟨h, iff_of_false (fun hl => by cases hl.1) hno, fun hl => absurd hl hno⟩

/-- The body loop has come to `t`, where the upload ends as it did in `c`. -/
structure InBody (c t : Ctx) : Prop extends Ahead c t where
  state : t.client.state = .recvPutData
  verb : t.client.requestVerb = .put
  le : t.client.bytesTransferred ≤ t.client.expectedSize
  file : t.client.fileFd.isSome
  no_list : ¬ AsksList c
  ends : Replies c ↔ BodyEnds (t.client.expectedSize - t.client.bytesTransferred) t.script

theorem InBody.abort (h : InBody c t) {d : Ctx} (hd : Ahead c d)
    (hends : BodyEnds (t.client.expectedSize - t.client.bytesTransferred) t.script) :
    ReadEnd c (abortUpload d) :=
  .reply (h.ends.mpr hends) (hd.closeFile.chosen_error h.no_list)

theorem sysPwrite_fst (t : Ctx) (f : Handle) (bs : List Byte) (off : Nat) :
    (t.sysPwrite f bs off).1 = some bs.length ↔ t.script.file.1.takes bs.length = true := by
  unfold Ctx.sysPwrite FileItem.takes
  dsimp only
  cases t.script.file.1 with
  | ok => simp
  | short m => simp
  | fail => simp

theorem recvPutDataPass_reading (h : InBody c t) :
    match recvPutDataPass t with
    | .again t' => InBody c t'
    | .leave t' => InBody c t' ∧ t'.client.bytesTransferred = t'.client.expectedSize ∨
        t'.client.bytesTransferred ≠ t'.client.expectedSize ∧ ReadEnd c t'
    | .ret t' => ReadEnd c t' := by
  unfold recvPutDataPass
  dsimp only
  split_ifs with hlen
  · have hleft : 0 < t.client.expectedSize - t.client.bytesTransferred := Nat.sub_pos_of_lt hlen
    have hread := h.toAhead.sysRead (bodyRoom t.client)
    -- `bodyRoom` counts the bytes that `BodyEnds` reads
    cases hr : (t.sysRead (bodyRoom t.client)).1 with
    | eintr =>
      have hends := bodyEnds_eintr hleft hr
      rw [bodyRoom] at hr
      rw [hr]
      exact ⟨hread, h.state, h.verb, h.le, h.file, h.no_list, h.ends.trans hends⟩
    | eagain =>
      have hends := not_bodyEnds_eagain hleft hr
      rw [bodyRoom] at hr
      rw [hr]
      exact .inr ⟨Nat.ne_of_lt hlen, .silent (fun hreply => hends (h.ends.mp hreply))
        (.inr (.inr (.inr h.state)))⟩
    | err =>
      have hends := BodyEnds.cut hleft (.inl hr)
      rw [bodyRoom] at hr
      rw [hr]
      exact h.abort hread hends
    | eof =>
      have hends := BodyEnds.cut hleft (.inr (.inl hr))
      rw [bodyRoom] at hr
      rw [hr]
      exact h.abort hread hends
    | bytes bs =>
      cases bs with
      | nil =>
        have hends := BodyEnds.cut hleft (.inr (.inr hr))
        rw [bodyRoom] at hr
        rw [hr]
        exact h.abort hread hends
      | cons b bs =>
        obtain ⟨f, hf⟩ := Option.isSome_iff_exists.mp h.file
        have hroom := length_read_le (s := t.script) hr
        have hwrite : Ahead c (writeBody t f (b :: bs)).2 :=
          hread.tail (l := []) (List.append_nil _).symm rfl rfl (Script.file_tx _) rfl
        have htakes := sysPwrite_fst (t.sysRead (bodyRoom t.client)).2 f (b :: bs)
          t.client.bytesTransferred
        have hstored := bodyEnds_stored hleft hr (List.cons_ne_nil b bs)
        have hrefused := BodyEnds.refused hleft hr (List.cons_ne_nil b bs)
        rw [bodyRoom] at hr
        rw [hr]
        simp only [Ctx.sysRead_client, hf]
        change match (if (writeBody t f (b :: bs)).1 = some (b :: bs).length then
          Pass.again ((writeBody t f (b :: bs)).2.setClient fun k =>
            { k with bytesTransferred := k.bytesTransferred + (b :: bs).length })
          else .ret (abortUpload (writeBody t f (b :: bs)).2)) with
          | .again t' => InBody c t'
          | .leave t' => _
          | .ret t' => ReadEnd c t'
        split_ifs with hw
        · refine ⟨hwrite.setClient _, h.state, h.verb, ?_, h.file, h.no_list, ?_⟩
          · change t.client.bytesTransferred + (b :: bs).length ≤ t.client.expectedSize
            simp only [bodyRoom] at hroom
            omega
          · rw [h.ends, hstored (htakes.mp hw), Nat.sub_sub]
            exact Iff.rfl
        · refine h.abort hwrite (hrefused ?_)
          exact Bool.eq_false_of_not_eq_true fun ht => hw (htakes.mpr ht)
  · exact .inl ⟨h, Nat.le_antisymm h.le (Nat.le_of_not_lt hlen)⟩

theorem InBody.finish (h : InBody c t)
    (hall : t.client.bytesTransferred = t.client.expectedSize) : ReadEnd c (finishUpload t) := by
  have hreply : Replies c := h.ends.mpr (by rw [hall, Nat.sub_self]; exact .complete)
  have hextra : Ahead c (readExtra t).2 := h.closeFile.sysRead 1
  unfold finishUpload
  rw [if_pos hall]
  dsimp only
  split
  · exact .reply hreply (hextra.chosen_error h.no_list)
  · refine .reply hreply (h.toAhead.acceptUpload.chosen h.no_list ?_)
    rw [acceptUpload_client]
    exact fun hv => by cases h.verb.symm.trans hv

theorem InBody.recvPutData (h : InBody c t) : ReadEnd c (FileServer.recvPutData t) := by
  obtain ⟨d, hd, heq, hfin⟩ := exec_spec recvPutDataPass_decreases (I := InBody c)
    (fun t t' ht hpass => by
      have := recvPutDataPass_reading ht
      rw [hpass] at this
      exact this)
    h
  have hpass := recvPutDataPass_reading hd
  unfold FileServer.recvPutData
  rw [heq]
  cases hp : recvPutDataPass d with
  | again t' => rw [hp] at hfin; exact hfin.elim
  | ret t' => rw [hp] at hpass; exact hpass
  | leave t' =>
    rw [hp] at hpass
    rcases hpass with ⟨hd', hall⟩ | ⟨hne, hend⟩
    · exact hd'.finish hall
    · dsimp only
      unfold finishUpload
      rw [if_neg hne]
      exact hend

/-- The loop for the size field has come to `t`. -/
structure InSize (c t : Ctx) : Prop extends Ahead c t where
  state : t.client.state = .recvPutSize
  verb : t.client.requestVerb = .put
  no_list : ¬ AsksList c
  disk : t.disk = c.disk
  path : t.filepath = c.filepath
  ends : Replies c ↔
    SizeEnds c.disk c.filepath t.client.expectedSize t.client.bytesTransferred t.script

theorem InSize.cut (h : InSize c t) (hgot : t.client.bytesTransferred < sizeLen)
    (hr : (t.sysRead (sizeLen - t.client.bytesTransferred)).1.Ended) :
    ReadEnd c (prepareAndSendResponse (t.sysRead (sizeLen - t.client.bytesTransferred)).2
      .error errBadFileSize) :=
  .reply (h.ends.mpr (.cut hgot hr)) ((h.toAhead.sysRead _).chosen_error h.no_list)

theorem recvPutSizePass_reading (h : InSize c t) :
    match recvPutSizePass t with
    | .again t' => InSize c t'
    | .leave t' => InSize c t' ∧ ¬ t'.client.bytesTransferred < sizeLen
    | .ret t' => ReadEnd c t' := by
  unfold recvPutSizePass
  dsimp only
  split_ifs with hlen
  · have hread := h.toAhead.sysRead (sizeLen - t.client.bytesTransferred)
    cases hr : (t.sysRead (sizeLen - t.client.bytesTransferred)).1 with
    | eintr =>
      exact ⟨hread, h.state, h.verb, h.no_list, h.disk, h.path,
        h.ends.trans (sizeEnds_eintr hlen hr)⟩
    | eagain =>
      exact .silent (fun hreply => not_sizeEnds_eagain hlen hr (h.ends.mp hreply))
        (.inr (.inr (.inl h.state)))
    | err => exact h.cut hlen (.inl hr)
    | eof => exact h.cut hlen (.inr (.inl hr))
    | bytes bs =>
      cases bs with
      | nil => exact h.cut hlen (.inr (.inr hr))
      | cons b bs =>
        exact ⟨hread.setClient _, h.state, h.verb, h.no_list, h.disk, h.path,
          h.ends.trans (sizeEnds_more hlen hr (List.cons_ne_nil b bs))⟩
  · exact ⟨h, hlen⟩

theorem openUploadFile_fst (t : Ctx) : (openUploadFile t).1 = none ↔
    t.script.file.1 = .fail ∨ (t.disk.openWrite t.filepath).1 = none := by
  change (if t.script.file.1 = .fail then (none, t.disk) else t.disk.openWrite t.filepath).1
    = none ↔ _
  split_ifs with hfail
  · exact iff_of_true rfl (.inl hfail)
  · exact ⟨.inr, fun h => h.resolve_left hfail⟩

theorem InSize.openUpload (h : InSize c t) (hlen : ¬ t.client.bytesTransferred < sizeLen) :
    ReadEnd c (FileServer.openUpload t) := by
  have hstart : Ahead c (t.setClient fun k => { k with bytesTransferred := 0 }) :=
    h.toAhead.setClient _
  have hopened : Ahead c ((t.setClient fun k => { k with bytesTransferred := 0 }).sysOpenWrite
      t.filepath).2 :=
    hstart.tail (Ctx.sysOpenWrite_log _ t.filepath) rfl rfl (Script.file_tx _) rfl
  have hopen : Ahead c (openUploadFile t).2 :=
    hopened.setClient fun k => { k with fileFd := (openUploadFile t).1 }
  have hfst := openUploadFile_fst t
  rw [h.disk, h.path] at hfst
  unfold FileServer.openUpload
  dsimp only
  split
  · next ho =>
    exact .reply (h.ends.mpr (.refused hlen (hfst.mp ho))) (hopen.chosen_error h.no_list)
  · next f ho =>
    replace ho : (openUploadFile t).1 = some f := ho
    have hno : ¬ (t.script.file.1 = .fail ∨ (c.disk.openWrite c.filepath).1 = none) := fun hn => by
      cases ho.symm.trans (hfst.mpr hn)
    refine InBody.recvPutData ⟨hopen.setClient _, rfl, h.verb, Nat.zero_le _, ?_, h.no_list,
      h.ends.trans (sizeEnds_opened hlen hno)⟩
    change (openUploadFile t).1.isSome = true
    rw [ho]
    rfl

theorem InSize.recvPutSize (h : InSize c t) : ReadEnd c (FileServer.recvPutSize t) := by
  obtain ⟨d, hd, heq, hfin⟩ := exec_spec recvPutSizePass_decreases (I := InSize c)
    (fun t t' ht hpass => by
      have := recvPutSizePass_reading ht
      rw [hpass] at this
      exact this)
    h
  have hpass := recvPutSizePass_reading hd
  unfold FileServer.recvPutSize
  rw [heq]
  cases hp : recvPutSizePass d with
  | again t' => rw [hp] at hfin; exact hfin.elim
  | ret t' => rw [hp] at hpass; exact hpass
  | leave t' => rw [hp] at hpass; exact hpass.1.openUpload hpass.2

end Loops

/-! ### Requests -/

section Requests

variable {c t : Ctx} {q : Request}

/-- Only a request line, or a header that is too long, is answered in `STATE_RECV_HEADER`. -/
theorem Replies.of_header (h : Replies c) (hs : c.client.state = .recvHeader) :
    (LineReady c ∧ ∃ q, requestOf (headerAtHand c) = some q ∧
        q.Immediate c.serverFiles.contents) ∨
      ¬ LineReady c ∧ headerRoom c.client ≤ (ready c.script.rx).length := by
  cases h with
  | line hl hq ha => exact .inl ⟨hl, _, hq, ha⟩
  | tooLong _ hlen hl => exact .inr ⟨hl, hlen⟩
  | size hs' => cases hs.symm.trans hs'
  | body hs' => cases hs.symm.trans hs'

/-- In `t` the request `q` of the line at hand is to be served. -/
structure AtLine (c t : Ctx) (q : Request) : Prop extends Ahead c t where
  state : t.client.state = .recvHeader
  ready : LineReady c
  request : requestOf (headerAtHand c) = some q
  files : t.serverFiles = c.serverFiles
  mem : t.script.mem = c.script.mem

theorem AtLine.replies_iff (h : AtLine c t q) :
    Replies c ↔ q.Immediate c.serverFiles.contents := by
  refine ⟨fun hr => ?_, .line h.ready h.request⟩
  rcases hr.of_header h.ready.1 with ⟨-, q', hq', ha⟩ | ⟨hno, -⟩
  · obtain rfl := Option.some.inj (h.request.symm.trans hq')
    exact ha
  · exact absurd h.ready hno

theorem AtLine.not_asksList (h : AtLine c t q) (hq : q ≠ .list) : ¬ AsksList c := fun hl =>
  hq (Option.some.inj (h.request.symm.trans hl.2))

theorem AtLine.deleteRequest {w : Path} (h : AtLine c t (.delete w)) :
    ReadEnd c (FileServer.deleteRequest (noteRequest t (.delete w))) := by
  have hno := h.not_asksList (by simp)
  have hq := (h.toAhead.noteRequest (.delete w)).use (.find (w.take 255))
  let d := (noteRequest t (.delete w)).use (.find (w.take 255))
  have hd : (noteRequest t (.delete w)).use (.find (noteRequest t (.delete w)).client.filename)
      = d := rfl
  have hname : d.client.filename = w.take 255 := rfl
  have hfiles : d.serverFiles = c.serverFiles := h.files
  unfold FileServer.deleteRequest
  dsimp only
  rw [hd, hname, hfiles]
  cases hsearch : searchName (w.take 255) 0 c.serverFiles.contents with
  | null => exact .silent (fun hr => h.replies_iff.mp hr hsearch) (.inr (.inl h.state))
  | absent =>
    exact .reply (h.replies_iff.mpr fun hn => by cases hsearch.symm.trans hn)
      (hq.chosen_error hno)
  | found i =>
    have hreply : Replies c := h.replies_iff.mpr fun hn => by cases hsearch.symm.trans hn
    have hu := hq.sysUnlink (noteRequest t (.delete w)).filepath
    split_ifs
    · refine .reply hreply ((hu.removeFileFromList _).chosen hno ?_)
      rw [removeFileFromList_client]
      exact fun hv => by cases hv
    · exact .reply hreply (hu.chosen_error hno)

theorem AtLine.startSendGet {w : Path} (h : AtLine c t (.get w)) :
    ReadEnd c (FileServer.startSendGet (noteRequest t (.get w))) := by
  have hno := h.not_asksList (by simp)
  have hreply : Replies c := h.replies_iff.mpr trivial
  have hopen := ((h.toAhead.noteRequest (.get w)).sysOpenRead
    (noteRequest t (.get w)).filepath).setClient fun k =>
      { k with fileFd := ((noteRequest t (.get w)).sysOpenRead
        (noteRequest t (.get w)).filepath).1 }
  unfold FileServer.startSendGet
  dsimp only
  split
  · exact .reply hreply (hopen.chosen_error hno)
  · split
    · exact .reply hreply ((hopen.sysFstat _).closeFile.chosen_error hno)
    · exact .reply hreply (((hopen.sysFstat _).setClient _).chosen hno fun hv => by cases hv)

theorem AtLine.serveRequest (h : AtLine c t q) : ReadEnd c (FileServer.serveRequest t q) := by
  have hq := h.toAhead.noteRequest q
  cases q with
  | list =>
    exact .reply (h.replies_iff.mpr trivial)
      ⟨hq, iff_of_true ⟨rfl, rfl⟩ ⟨h.ready, h.request⟩, fun _ => ⟨h.files, h.mem⟩⟩
  | delete w => exact h.deleteRequest
  | get w => exact h.startSendGet
  | put w => exact .silent (fun hr => h.replies_iff.mp hr) (.inr (.inr (.inl rfl)))
  | bad v =>
    exact .reply (h.replies_iff.mpr trivial) (hq.chosen_error (h.not_asksList (by simp)))

/-- Where the loop ended for lack of room or of input, it came to no newline. -/
theorem Scanned.not_lineReady {got : List Byte} (h : Scanned c t got)
    (hend : headerRoom c.client ≤ got.length ∨ FileServer.ready t.script.rx = []) :
    ¬ LineReady c := by
  rintro ⟨-, hmem⟩
  rw [h.ready] at hmem
  rcases hend with hlen | hnil
  · rw [List.take_append_of_le_length hlen] at hmem
    exact h.line (List.mem_of_mem_take hmem)
  · rw [hnil, List.append_nil] at hmem
    exact h.line (List.mem_of_mem_take hmem)

/-- Where the loop ended for lack of input, it was not for lack of room. -/
theorem Scanned.not_replies {got : List Byte} (h : Scanned c t got)
    (hs : c.client.state = .recvHeader) (hlen : t.client.headerLen < maxHeaderLen - 1)
    (hnil : FileServer.ready t.script.rx = []) : ¬ Replies c := by
  intro hr
  rcases hr.of_header hs with ⟨hl, -⟩ | ⟨-, hroom⟩
  · exact h.not_lineReady (.inr hnil) hl
  · rw [h.ready, hnil, List.append_nil, headerRoom] at hroom
    have := h.len
    omega

theorem HeaderEnd.reading {c' : Ctx} (h : HeaderEnd c c') (hs : c.client.state = .recvHeader)
    (hroom : c.client.headerLen ≤ maxHeaderLen - 1) : ReadEnd c c' := by
  cases h with
  | @line t got rest h hlen hr hready =>
    have hgot : got.length < headerRoom c.client := by
      have := h.len
      rw [headerRoom]
      omega
    obtain ⟨htake, hbefore⟩ := first_newline (h.ready.trans (by rw [hready])) hgot h.line
    have hheader : (storeHeader t newline).client.headerBuf = headerAtHand c := by
      change t.client.headerBuf ++ [newline] = _
      rw [headerAtHand, hbefore, h.buf]
    rw [parseHeaderAndTransition_eq, hheader]
    cases hq : requestOf (headerAtHand c) with
    | none =>
      refine .silent (fun hreply => ?_) (.inr (.inl h.state))
      rcases hreply.of_header hs with ⟨-, q, hq', -⟩ | ⟨hno, -⟩
      · cases hq.symm.trans hq'
      · exact hno ⟨hs, htake⟩
    | some q =>
      have hfiles : (storeHeader t newline).serverFiles = c.serverFiles :=
        congrArg Globals.serverFiles h.globals
      have hmem : (storeHeader t newline).script.mem = c.script.mem :=
        (Script.read_mem ..).trans h.mem
      exact AtLine.serveRequest
        ⟨h.toAhead.storeHeader newline, h.state, ⟨hs, htake⟩, hq, hfiles, hmem⟩
  | tooLong h hlen =>
    have hlong : headerRoom c.client ≤ (ready c.script.rx).length := by
      have := h.len
      rw [h.ready, List.length_append, headerRoom]
      omega
    have hno : ¬ LineReady c := h.not_lineReady (.inl (by
      have := h.len
      rw [headerRoom]
      omega))
    exact .reply (.tooLong hs hlong hno) (h.toAhead.chosen_error fun hl => hno hl.1)
  | drained h hlen hr hready =>
    exact .silent (h.not_replies hs hlen hready) (.inr (.inl h.state))
  | closed h hlen hready => exact .silent (h.not_replies hs hlen hready) (.inl rfl)

/-- **A READ event of a connection that receives comes to a reply exactly if its record, its script,
the list and the disk say so.** -/
theorem handleReadEvent_reading (hc : c.freed = false) (hok : ConnOk c)
    (hs : c.client.state.Receiving)
    (hfile : c.client.state = .recvPutData → c.client.fileFd.isSome) :
    ReadEnd c (handleReadEvent c) := by
  unfold handleReadEvent
  rcases hs with hs | hs | hs
  · rw [hs]
    exact (readHeader_end hc hs).reading hs (hok.request.len ▸ hok.request.room)
  · rw [hs]
    refine InSize.recvPutSize ⟨.refl hc, hs, hok.request.upload hs,
      not_asksList (by simp [hs]), rfl, rfl, fun hr => ?_, .size hs⟩
    cases hr with
    | line hl => cases hs.symm.trans hl.1
    | tooLong hs' => cases hs.symm.trans hs'
    | size _ h => exact h
    | body hs' => cases hs.symm.trans hs'
  · rw [hs]
    obtain ⟨-, -, hput, hle, -⟩ := hok.upload.data hs
    refine InBody.recvPutData ⟨.refl hc, hs, hput, hle, hfile hs,
      not_asksList (by simp [hs]), fun hr => ?_, .body hs⟩
    cases hr with
    | line hl => cases hs.symm.trans hl.1
    | tooLong hs' => cases hs.symm.trans hs'
    | size hs' => cases hs.symm.trans hs'
    | body _ h => exact h

end Requests

end FileServer
