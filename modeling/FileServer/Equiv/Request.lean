/-
  The request line: what a connection keeps of it, and the paths it is used for.

  `RequestOk`: the header buffer holds the first bytes received, verb and name are
  those of the request in it, and every path handed to `open` or `unlink` is the one
  built from that name.  A complete request line is not changed by the bytes behind
  it (`requestOf_append`), so the request is a function of the bytes received.
-/
import FileServer.Equiv.Server
import Mathlib.Data.List.TakeWhile

namespace FileServer

/-! ### Requests as functions of bytes -/

theorem mem_cString_append {b : Byte} {header : List Byte} (rest : List Byte)
    (h : b ∈ cString header) : b ∈ cString (header ++ rest) := by
  induction header with
  | nil => cases h
  | cons x header ih =>
    simp only [cString, List.cons_append, List.takeWhile_cons] at h ⊢
    split_ifs at h ⊢ with hx
    · rcases List.mem_cons.mp h with rfl | h
      · exact List.mem_cons_self ..
      · exact List.mem_cons_of_mem _ (ih h)
    · cases h

/-- The bytes before a character that is there are not changed by bytes behind it. -/
theorem beforeChar_cString_append {b : Byte} {header : List Byte} (rest : List Byte)
    (h : b ∈ cString header) :
    beforeChar b (cString (header ++ rest)) = beforeChar b (cString header) := by
  induction header with
  | nil => cases h
  | cons x header ih =>
    simp only [cString, List.cons_append, List.takeWhile_cons] at h ⊢
    split_ifs at h ⊢ with hx
    · by_cases hxb : x = b
      · simp [beforeChar, hxb]
      · have h : b ∈ cString header := by
          rcases List.mem_cons.mp h with rfl | h
          · exact absurd rfl hxb
          · exact h
        have hpos : decide (x ≠ b) = true := decide_eq_true hxb
        simp only [beforeChar, List.takeWhile_cons, hpos, if_true]
        exact congrArg (List.cons x) (ih h)
    · cases h

/-- **A complete request line is not changed by what follows it.** -/
theorem requestOf_append {header : List Byte} {q : Request} (h : requestOf header = some q)
    (rest : List Byte) : requestOf (header ++ rest) = some q := by
  unfold requestOf at h ⊢
  split_ifs at h with hn
  rw [if_pos (mem_cString_append rest hn), beforeChar_cString_append rest hn]
  exact h

/-- A byte that is no newline completes no request line. -/
theorem requestOf_concat {header : List Byte} {b : Byte} (h : requestOf header = none)
    (hb : b ≠ newline) : requestOf (header ++ [b]) = none := by
  unfold requestOf at h ⊢
  split_ifs at h with hn
  rw [if_neg]
  intro hmem
  have hsub : ∀ header : List Byte, newline ∉ cString header →
      newline ∉ cString (header ++ [b]) := by
    intro header
    induction header with
    | nil =>
      intro _ hmem
      simp only [cString, List.nil_append, List.takeWhile_cons] at hmem
      split_ifs at hmem
      · exact hb (List.mem_singleton.mp hmem).symm
      · cases hmem
    | cons x header ih =>
      simp only [cString, List.cons_append, List.takeWhile_cons]
      split_ifs
      · simp only [List.mem_cons, not_or]
        exact fun h => ⟨h.1, ih h.2⟩
      · exact fun h => h
  exact hsub header hn hmem

/-- The verb in the record for a request. -/
def verbOf (q : Option Request) : Verb := (q.bind Request.verb).getD .get

/-- The name in the record for a request. -/
def nameOf (q : Option Request) : Path := ((q.bind Request.name?).map fun w => w.take 255).getD []

/-! ### The invariant -/

/-- Header buffer, verb, name and paths agree with the bytes received. -/
structure HeaderOk (c : Ctx) : Prop where
  len : c.client.headerLen = c.client.headerBuf.length
  room : c.client.headerBuf.length ≤ maxHeaderLen - 1
  verb : c.client.requestVerb = verbOf (requestOf c.client.headerBuf)
  name : c.client.filename = nameOf (requestOf c.client.headerBuf)
  received : c.client.headerBuf <+: c.received
  paths : ∀ p ∈ c.paths, p = c.filepath
  noPaths : requestOf c.client.headerBuf = none → c.paths = []

/-- And while the header is received, it is all that was received. -/
structure RequestOk (c : Ctx) : Prop extends HeaderOk c where
  header : c.fault = false → c.client.state = .recvHeader →
    requestOf c.client.headerBuf = none ∧ c.received = c.client.headerBuf
  upload : c.client.state = .recvPutSize → c.client.requestVerb = .put

section Steps

variable {c c' : Ctx} {st : Status} {msg : List Byte} {q : Request}

theorem HeaderOk.of_same (h : HeaderOk c) (hk : SameHeader c.client c'.client)
    (htree : c'.disk.tree = c.disk.tree) (hr : c.received <+: c'.received)
    (hp : c'.paths = c.paths ∨
      requestOf c.client.headerBuf ≠ none ∧ c'.paths = c.paths ++ [c'.filepath]) :
    HeaderOk c' := by
  have hpath : c'.filepath = c.filepath := by rw [Ctx.filepath, Ctx.filepath, htree, hk.name]
  refine ⟨?_, ?_, ?_, ?_, ?_, fun p hmem => ?_, fun hq => ?_⟩
  · rw [hk.len, hk.buf, h.len]
  · rw [hk.buf]; exact h.room
  · rw [hk.verb, hk.buf, h.verb]
  · rw [hk.name, hk.buf, h.name]
  · rw [hk.buf]; exact h.received.trans hr
  · rcases hp with hp | ⟨-, hp⟩
    · rw [hpath]; rw [hp] at hmem; exact h.paths p hmem
    · rw [hp] at hmem
      rcases List.mem_append.mp hmem with hmem | hmem
      · rw [hpath]; exact h.paths p hmem
      · exact List.mem_singleton.mp hmem
  · rw [hk.buf] at hq
    rcases hp with hp | ⟨hne, -⟩
    · rw [hp, h.noPaths hq]
    · exact absurd hq hne

/-- Handing the connection's own path to a call keeps the paths in order. -/
theorem HeaderOk.add_path (h : HeaderOk c) (hk : SameHeader c.client c'.client)
    (htree : c'.disk.tree = c.disk.tree) (hq : requestOf c.client.headerBuf ≠ none) {call : Call}
    (hlog : c'.log = c.log ++ [call]) (hcall : call.path? = some c.filepath) : HeaderOk c' := by
  have hpath : c'.filepath = c.filepath := by rw [Ctx.filepath, Ctx.filepath, htree, hk.name]
  refine h.of_same hk htree ?_ (.inr ⟨hq, ?_⟩)
  · rw [Conn.received_of_log hlog]
    exact List.prefix_append ..
  · rw [Conn.paths_of_log hlog, List.filterMap_cons, hcall, hpath]
    rfl

/-- A read for one byte that finds bytes finds one. -/
theorem sysRead_one {b : Byte} {bs : List Byte} (h : (c.sysRead 1).1 = .bytes (b :: bs)) :
    (c.sysRead 1).1 = .bytes [b] := by
  have hlen := length_read_le (s := c.script) (n := 1) h
  simp only [List.length_cons] at hlen
  have hnil : bs = [] := List.eq_nil_of_length_eq_zero (by omega)
  rw [h, hnil]

theorem storeHeader_received {b : Byte} {bs : List Byte}
    (h : (c.sysRead 1).1 = .bytes (b :: bs)) :
    (storeHeader c b).received = c.received ++ [b] := by
  have hlog : (storeHeader c b).log = c.log ++ [.read (c.sysRead 1).1] := rfl
  rw [Conn.received_of_log hlog, sysRead_one h]
  rfl

theorem storeHeader_paths (b : Byte) : (storeHeader c b).paths = c.paths := by
  have h : (storeHeader c b).log = c.log ++ [.read (c.sysRead 1).1] := rfl
  rw [Conn.paths_of_log h]
  exact List.append_nil _

/-- In the context in which a request is served the record holds it. -/
theorem RequestOk.lineTaken (h : RequestOk c) (hl : LineRead c q) :
    HeaderOk (takeLine c q) ∧ requestOf (takeLine c q).client.headerBuf = some q ∧
      (takeLine c q).received = (takeLine c q).client.headerBuf := by
  obtain ⟨bs, hr⟩ := hl.read
  obtain ⟨hnone, hrec⟩ := h.header hl.fault hl.state
  have hbuf : (takeLine c q).client.headerBuf = c.client.headerBuf ++ [newline] := rfl
  have hrec' : (takeLine c q).received = c.client.headerBuf ++ [newline] := by
    rw [← hrec]; exact storeHeader_received hr
  have hpaths : (takeLine c q).paths = [] :=
    (storeHeader_paths newline).trans (h.noPaths hnone)
  have hreq := hl.request
  refine ⟨⟨?_, ?_, ?_, ?_, ?_, ?_, ?_⟩, hreq, hrec'⟩
  · change c.client.headerLen + 1 = (c.client.headerBuf ++ [newline]).length
    rw [h.len]; simp
  · have hroom := hl.room
    rw [h.len] at hroom
    rw [hbuf, List.length_append, List.length_singleton]
    exact hroom
  · rw [hbuf, hreq]
    change q.verb.getD c.client.requestVerb = _
    rw [h.verb, hnone]; rfl
  · rw [hbuf, hreq]
    change (q.name?.map fun w => w.take 255).getD c.client.filename = _
    rw [h.name, hnone]; rfl
  · exact ⟨[], by rw [List.append_nil, hrec', hbuf]⟩
  · rw [hpaths]; simp
  · exact fun _ => hpaths

/-- Calls without a path leave the paths as they are. -/
theorem paths_eq_of_log {l : List Call} (h : c'.log = c.log ++ l)
    (hc : l.filterMap Call.path? = []) : c'.paths = c.paths := by
  rw [Conn.paths_of_log h, hc, List.append_nil]

theorem Quiet.paths (h : Quiet c c') : c'.paths = c.paths := by
  cases h with
  | read => exact paths_eq_of_log rfl rfl
  | write => exact paths_eq_of_log rfl rfl
  | pread => rfl

theorem Send.paths (h : Send c c') : c'.paths = c.paths := by
  have hline : ∀ n, (sentLine c n).paths = c.paths := fun n =>
    paths_eq_of_log (l := [.write _ _]) rfl rfl
  have hmod : ∀ (d : Ctx) i, (d.modifyEventLoop i).paths = d.paths := fun d i =>
    paths_eq_of_log (c := d) rfl rfl
  cases h with
  | linePart => exact (hmod _ _).trans (hline _)
  | @lineGet n => exact (hmod _ _).trans (hline n)
  | @lineList n buffer hs hv hn hb =>
    refine (hmod _ _).trans (Eq.trans ?_ (hline n))
    exact paths_eq_of_log (l := []) (by simp) rfl
  | loadSize hs hl => rw [loadGetSize_of_zero hl]; rfl
  | sizePart => exact hline _
  | @sizeAll n => exact (hmod _ _).trans (hline n)
  | data => exact paths_eq_of_log (l := [.write _ _]) rfl rfl
  | listPart => exact paths_eq_of_log (l := [.write _ _]) rfl rfl

theorem Close.paths (h : Close c c') : c'.paths = c.paths := by
  cases h with
  | header => exact paths_eq_of_log (l := [_]) rfl rfl
  | noFile => rfl
  | pread => rfl
  | got => rfl
  | _ => exact paths_eq_of_log (l := [.write _ _]) rfl rfl

/-- What leads to a close received nothing. -/
theorem Close.received (h : Close c c') : c'.received = c.received := by
  cases h with
  | header hs hlen hr =>
    rw [Conn.received_of_log (Ctx.sysRead_log c 1)]
    rcases hr with hr | hr | hr <;> rw [hr] <;> exact List.append_nil _
  | noFile => rfl
  | pread => rfl
  | got => rfl
  | _ =>
    rw [Conn.received_of_log (l := [.write _ _]) rfl]
    exact List.append_nil _

theorem Close.fault (h : Close c c') : c'.fault = c.fault := by cases h <;> rfl

theorem closeAndCleanup_paths (k : Ctx) :
    (closeAndCleanup k).paths = k.paths ++ if k.client.Unlinks then [k.filepath] else [] := by
  rw [Conn.paths_of_log (closeAndCleanup_log k)]
  split_ifs <;> rfl

theorem fillResponse_paths (k : Ctx) (st : Status) (msg : List Byte) :
    (fillResponse k st msg).paths = k.paths := paths_eq_of_log (l := [_]) rfl rfl

theorem closeAndCleanup_headerOk {k : Ctx} (h : HeaderOk k) : HeaderOk (closeAndCleanup k) := by
  refine h.of_same ?_ (closeAndCleanup_grows k).tree ?_ ?_
  · rw [closeAndCleanup_client]; exact ⟨rfl, rfl, rfl, rfl⟩
  · rw [Conn.received_of_log (closeAndCleanup_log k)]
    exact List.prefix_append ..
  · rw [closeAndCleanup_paths]
    split_ifs with hu
    · refine .inr ⟨fun hnone => ?_, ?_⟩
      · have hverb := hu.1
        rw [h.verb, hnone] at hverb
        cases hverb
      · rw [Ctx.filepath, Ctx.filepath, closeAndCleanup_client, (closeAndCleanup_grows k).tree]
    · exact .inl (List.append_nil _)

/-- Past the header, a path is used by the `open` of an upload only, until the connection is
closed. -/
theorem Choose.paths (h : Choose c c' st msg) (hs : c.client.state ≠ .recvHeader) :
    c'.paths = c.paths ∨
      c.client.state = .recvPutSize ∧ c'.paths = c.paths ++ [c'.filepath] := by
  cases h with
  | bad hl => exact absurd hl.state hs
  | tooLong hs' => exact absurd hs' hs
  | list hl => exact absurd hl.state hs
  | deleteAbsent hl => exact absurd hl.state hs
  | deleteFailed hl => exact absurd hl.state hs
  | deleted hl => exact absurd hl.state hs
  | getMissing hl => exact absurd hl.state hs
  | getFailed hl => exact absurd hl.state hs
  | getOpened hl => exact absurd hl.state hs
  | openFailed hs' =>
    refine .inr ⟨hs', ?_⟩
    have hlog : (openUploadFile c).2.log = c.log ++ [.openWrite c.filepath (openUploadFile c).1] :=
      rfl
    rw [Conn.paths_of_log hlog]
    congr 1
    change [c.filepath] = [snprintf 1024 ((openUploadFile c).2.disk.tree.tempName ++ _ ++ _)]
    rw [show (openUploadFile c).2.disk.tree = c.disk.tree from
      (Ctx.sysOpenWrite_grows (c.setClient _) _).tree]
    rfl
  | accepted => exact .inl (paths_eq_of_log (acceptUpload_log c) rfl)
  | listNoMemory =>
    refine .inl (paths_eq_of_log (l := [.write (simpleResponseRest c.client)
      (writeLine c).1]) ?_ rfl)
    rw [buildListBuffer_log]; rfl
  | _ => exact .inl (paths_eq_of_log (l := [_]) rfl rfl)

/-- A request is served in the context of its line: what the choice of a reply adds there. -/
theorem Choose.headerOk (h : Choose c c' st msg) (hc : RequestOk c) : HeaderOk c' := by
  by_cases hs : c.client.state = .recvHeader
  · cases h with
    | bad hl => exact (hc.lineTaken hl).1
    | tooLong => exact hc.toHeaderOk
    | list hl => exact (hc.lineTaken hl).1
    | deleteAbsent hl => exact (hc.lineTaken hl).1
    | @deleteFailed w i hl =>
      obtain ⟨ht, hq, -⟩ := hc.lineTaken hl
      exact ht.add_path ⟨rfl, rfl, rfl, rfl⟩ (Ctx.sysUnlink_grows (takeLine c _) _).tree
        (by rw [hq]; simp) rfl rfl
    | @deleted w i hl =>
      obtain ⟨ht, hq, -⟩ := hc.lineTaken hl
      refine ht.add_path ?_ ?_ (by rw [hq]; simp) (removeFileFromList_log _ _) rfl
      · rw [removeFileFromList_client]; exact ⟨rfl, rfl, rfl, rfl⟩
      · rw [removeFileFromList_disk]; exact (Ctx.sysUnlink_grows (takeLine c _) _).tree
    | getMissing hl =>
      obtain ⟨ht, hq, -⟩ := hc.lineTaken hl
      exact ht.add_path ⟨rfl, rfl, rfl, rfl⟩ rfl (by rw [hq]; simp) rfl rfl
    | getFailed hl =>
      obtain ⟨ht, hq, -⟩ := hc.lineTaken hl
      exact ht.add_path ⟨rfl, rfl, rfl, rfl⟩ rfl (by rw [hq]; simp) rfl rfl
    | getOpened hl =>
      obtain ⟨ht, hq, -⟩ := hc.lineTaken hl
      exact ht.add_path ⟨rfl, rfl, rfl, rfl⟩ rfl (by rw [hq]; simp) rfl rfl
    | sizeCut hs' => cases hs.symm.trans hs'
    | openFailed hs' => cases hs.symm.trans hs'
    | bodyCut hs' => cases hs.symm.trans hs'
    | noFile hs' => cases hs.symm.trans hs'
    | bodyFailed hs' => cases hs.symm.trans hs'
    | extraByte hs' => cases hs.symm.trans hs'
    | accepted hs' => cases hs.symm.trans hs'
    | listNoMemory hs' => cases hs.symm.trans hs'
  · refine hc.toHeaderOk.of_same (h.sameHeader hs) h.grows.tree ?_ ?_
    · obtain ⟨calls, hcalls⟩ := h.log
      rw [Conn.received_of_log hcalls.symm]
      exact List.prefix_append ..
    · rcases h.paths hs with hp | ⟨hs', hp⟩
      · exact .inl hp
      · refine .inr ⟨fun hnone => ?_, hp⟩
        have hverb := hc.upload hs'
        rw [hc.verb, hnone] at hverb
        cases hverb

theorem RequestOk.step (hc : RequestOk c) (h : Step c c') : RequestOk c' := by
  have hrec := Conn.received_mono h.log
  cases h with
  | quiet h =>
    have hp := h.paths
    have heq : c'.received = c.received := by
      cases h with
      | @read n hn hr =>
        rw [Conn.received_of_log (Ctx.sysRead_log c n)]
        rcases hr with hr | hr <;> rw [hr] <;> exact List.append_nil _
      | @write bs hw =>
        rw [Conn.received_of_log (Ctx.sysWrite_log c bs), hw]
        exact List.append_nil _
      | pread => rfl
    have hk : c'.client = c.client := by cases h <;> rfl
    have hg : c'.toGlobals = c.toGlobals := by cases h <;> rfl
    refine ⟨hc.toHeaderOk.of_same (by rw [hk]; exact .refl _) (by rw [hg]) hrec (.inl hp), ?_, ?_⟩
    · rw [hk, heq, hg]; exact hc.header
    · rw [hk]; exact hc.upload
  | receive h =>
    cases h with
    | @header b bs hf hs hlen hr hb =>
      obtain ⟨hnone, hrec⟩ := hc.header hf hs
      have hnone' : requestOf (c.client.headerBuf ++ [b]) = none := by
        by_cases hbn : b = newline
        · exact hb.resolve_left (not_not_intro hbn)
        · exact requestOf_concat hnone hbn
      have hrec' : (storeHeader c b).received = c.client.headerBuf ++ [b] := by
        rw [storeHeader_received hr, hrec]
      have hpaths : (storeHeader c b).paths = [] :=
        (storeHeader_paths b).trans (hc.noPaths hnone)
      refine ⟨⟨?_, ?_, ?_, ?_, ?_, ?_, fun _ => hpaths⟩, fun _ _ => ⟨hnone', hrec'⟩, ?_⟩
      · change c.client.headerLen + 1 = (c.client.headerBuf ++ [b]).length
        rw [hc.len]; simp
      · change (c.client.headerBuf ++ [b]).length ≤ _
        rw [hc.len] at hlen
        rw [List.length_append, List.length_singleton]
        exact hlen
      · change c.client.requestVerb = verbOf (requestOf (c.client.headerBuf ++ [b]))
        rw [hnone', hc.verb, hnone]
      · change c.client.filename = nameOf (requestOf (c.client.headerBuf ++ [b]))
        rw [hnone', hc.name, hnone]
      · rw [hrec']; exact List.prefix_rfl
      · rw [hpaths]; simp
      · exact fun hs' => by cases hs.symm.trans hs'
    | size hs =>
      refine ⟨hc.toHeaderOk.of_same ⟨rfl, rfl, rfl, rfl⟩ rfl hrec (.inl ?_), fun _ hs' => ?_,
        hc.upload⟩
      · exact paths_eq_of_log (l := [_]) rfl rfl
      · cases hs.symm.trans hs'
    | body hs =>
      refine ⟨hc.toHeaderOk.of_same ⟨rfl, rfl, rfl, rfl⟩ ?_ hrec (.inl ?_), fun _ hs' => ?_,
        hc.upload⟩
      · exact (Ctx.sysPwrite_grows (c.sysRead _).2 _ _ _).tree
      · exact paths_eq_of_log (l := [_]) rfl rfl
      · cases hs.symm.trans hs'
  | begin h =>
    cases h with
    | @put w hl =>
      obtain ⟨ht, -, -⟩ := hc.lineTaken hl
      have hlog : (((takeLine c (.put w)).setClient fun k =>
          { k with bytesTransferred := 0, state := .recvPutSize }).modifyEventLoop .read).log
            = (takeLine c (.put w)).log ++ [.modify .read] := rfl
      exact ⟨ht.of_same ⟨rfl, rfl, rfl, rfl⟩ rfl (Conn.received_mono ⟨_, hlog.symm⟩)
        (.inl (paths_eq_of_log hlog rfl)), fun _ hs' => (by cases hs'), fun _ => rfl⟩
    | upload hs hlen ho =>
      refine ⟨?_, fun _ hs' => (by cases hs'), fun hs' => (by cases hs')⟩
      refine hc.toHeaderOk.add_path ⟨rfl, rfl, rfl, rfl⟩
        (Ctx.sysOpenWrite_grows (c.setClient _) _).tree (fun hnone => ?_) rfl rfl
      have hverb := hc.upload hs
      rw [hc.verb, hnone] at hverb
      cases hverb
  | @choose k st msg h =>
    have hsend := fillResponse_sending k st msg
    have hlog : (fillResponse k st msg).log = k.log ++ [.reply st msg] := rfl
    exact ⟨(h.headerOk hc).of_same ⟨rfl, rfl, rfl, rfl⟩ rfl (Conn.received_mono ⟨_, hlog.symm⟩)
      (.inl (fillResponse_paths k st msg)), fun _ hs' => absurd hs' hsend.ne.1,
      fun hs' => absurd hs' hsend.ne.2.1⟩
  | send h =>
    exact ⟨hc.toHeaderOk.of_same h.sameHeader (by rw [h.disk]) hrec (.inl h.paths),
      fun _ hs' => absurd hs' h.sending.ne.1, fun hs' => absurd hs' h.sending.ne.2.1⟩
  | @close k h =>
    have hk : HeaderOk k := hc.toHeaderOk.of_same h.sameHeader (by rw [h.disk])
      (Conn.received_mono h.log) (.inl h.paths)
    refine ⟨closeAndCleanup_headerOk hk, fun hf hs => ?_, fun hs => ?_⟩
    · rw [closeAndCleanup_fault] at hf
      rw [closeAndCleanup_client] at hs
      have hs' : c.client.state = .recvHeader := by
        rcases h.state with h | h
        · exact h.symm.trans hs
        · cases h.symm.trans hs
      rw [closeAndCleanup_client, closeAndCleanup_received, h.received]
      change requestOf k.client.headerBuf = none ∧ c.received = k.client.headerBuf
      rw [h.sameHeader.buf]
      exact hc.header (h.fault ▸ hf) hs'
    · rw [closeAndCleanup_client] at hs ⊢
      rcases h.state with h' | h'
      · exact h.sameHeader.verb.trans (hc.upload (h'.symm.trans hs))
      · cases h'.symm.trans hs
  | fault hl =>
    refine ⟨(hc.lineTaken hl).1.of_same (.refl _) rfl List.prefix_rfl (.inl rfl),
      fun hf => (by cases hf), fun hs => ?_⟩
    cases hl.state.symm.trans hs

end Steps

theorem requestOk_stable : Stable RequestOk where
  new := fun fd script g =>
    ⟨⟨rfl, Nat.zero_le _, rfl, rfl, List.nil_prefix, fun p hp => (by cases hp), fun _ => rfl⟩,
      fun _ _ => ⟨rfl, rfl⟩, fun hs => (by cases hs)⟩
  step := fun _ _ _ hc h => hc.step h
  close := fun c _ hc => by
    refine ⟨closeAndCleanup_headerOk hc.toHeaderOk, fun hf hs => ?_, fun hs => ?_⟩
    · rw [closeAndCleanup_fault] at hf
      rw [closeAndCleanup_client] at hs
      rw [closeAndCleanup_client, closeAndCleanup_received]
      exact hc.header hf hs
    · rw [closeAndCleanup_client] at hs ⊢
      exact hc.upload hs
  globals := fun c g hg hf hc =>
    ⟨hc.toHeaderOk.of_same (.refl _) hg.tree List.prefix_rfl (.inl rfl),
      fun hf' => hc.header (by by_contra h; simp [hf (by simpa using h)] at hf'), hc.upload⟩

/-! ### Well-formed lines -/

/-- Without a newline, the request stays incomplete. -/
theorem requestOf_append_none {header : List Byte} (h : requestOf header = none) {got : List Byte}
    (hgot : newline ∉ got) : requestOf (header ++ got) = none := by
  induction got generalizing header with
  | nil => rwa [List.append_nil]
  | cons b got ih =>
    rw [List.mem_cons, not_or] at hgot
    rw [← List.singleton_append, ← List.append_assoc]
    exact ih (requestOf_concat h (Ne.symm hgot.1)) hgot.2

/-- A newline behind text without NULs belongs to the C string. -/
theorem cString_concat_newline {header : List Byte} (h0 : 0 ∉ header) :
    cString (header ++ [newline]) = header ++ [newline] := by
  rw [cString, List.takeWhile_eq_self_iff]
  intro b hb
  rcases List.mem_append.mp hb with hb | hb
  · exact decide_eq_true fun h => h0 (h ▸ hb)
  · obtain rfl := List.mem_singleton.mp hb
    rfl

/-- A line of text without NULs is parsed when its newline arrives. -/
theorem requestOf_line {line : List Byte} (hn : newline ∉ line) (h0 : 0 ∉ line) :
    requestOf (line ++ [newline]) = some (requestOfLine line) := by
  have hcstr := cString_concat_newline h0
  have hbefore : beforeChar newline (line ++ [newline]) = line := by
    rw [beforeChar, List.takeWhile_append_of_pos]
    · exact List.append_nil _
    · exact fun b hb => decide_eq_true fun h => hn (h ▸ hb)
  rw [requestOf, hcstr, if_pos (by simp), hbefore]

/-- Before the newline there is no request. -/
theorem requestOf_eq_none {header : List Byte} (h : newline ∉ header) : requestOf header = none :=
  if_neg fun hmem => h ((List.takeWhile_prefix _).subset hmem)

/-- A newline completes a request line unless a NUL comes before it, where `strchr` stops. -/
theorem requestOf_newline_eq_none {header : List Byte} (h : requestOf header = none) :
    requestOf (header ++ [newline]) = none ↔ 0 ∈ header := by
  constructor
  · intro hnone
    by_contra h0
    unfold requestOf at hnone
    rw [cString_concat_newline h0, if_pos (by simp)] at hnone
    cases hnone
  · intro h0
    have hcstr : cString (header ++ [newline]) = cString header := by
      rw [cString, List.takeWhile_append]
      split_ifs with hlen
      · rw [← (List.takeWhile_prefix _).eq_of_length hlen] at h0
        simpa using List.mem_takeWhile_imp h0
      · rfl
    unfold requestOf at h ⊢
    rw [hcstr]
    exact h

/-- A request line for a name, without its newline. -/
def nameLine (verbStr : List Byte) (w : Path) : List Byte := verbStr ++ [space] ++ w

theorem beforeChar_nameLine {verbStr : List Byte} (h : space ∉ verbStr) (w : Path) :
    beforeChar space (nameLine verbStr w) = verbStr := by
  rw [beforeChar, nameLine, List.append_assoc, List.takeWhile_append_of_pos]
  · exact List.append_nil _
  · exact fun b hb => decide_eq_true fun heq => h (heq ▸ hb)

theorem afterChar_nameLine {verbStr : List Byte} (h : space ∉ verbStr) (w : Path) :
    afterChar space (nameLine verbStr w) = w := by
  rw [afterChar, nameLine, List.append_assoc, List.dropWhile_append_of_pos]
  · rfl
  · exact fun b hb => decide_eq_true fun heq => h (heq ▸ hb)

theorem requestOfLine_name {verbStr : List Byte} (h : space ∉ verbStr) (w : Path) :
    requestOfLine (nameLine verbStr w)
      = if verbStr = ascii "LIST" then .bad (some .list)
        else if verbStr = ascii "DELETE" then .delete w
        else if verbStr = ascii "GET" then .get w
        else if verbStr = ascii "PUT" then .put w
        else .bad none := by
  have hmem : space ∈ nameLine verbStr w := by simp [nameLine]
  simp only [requestOfLine, beforeChar_nameLine h, afterChar_nameLine h, if_pos hmem]

theorem requestOfLine_put (w : Path) : requestOfLine (nameLine (ascii "PUT") w) = .put w := by
  rw [requestOfLine_name (by decide)]; rfl

/-! ### The path -/

theorem length_nameOf_le (q : Option Request) : (nameOf q).length ≤ 255 := by
  unfold nameOf
  cases q.bind Request.name? with
  | none => exact Nat.zero_le _
  | some w => exact List.length_take_le ..

/-- A name stands on its request line. -/
theorem mem_of_mem_nameOf {header : List Byte} {b : Byte} (h : b ∈ nameOf (requestOf header)) :
    b ∈ beforeChar newline (cString header) := by
  have hafter : ∀ {line : List Byte} {q : Request}, requestOfLine line = q →
      b ∈ nameOf (some q) → b ∈ line := by
    intro line q hq hb
    have hw : ∃ w, q.name? = some w ∧ b ∈ w := by
      cases hn : q.name? with
      | none => simp [nameOf, hn] at hb
      | some w =>
        refine ⟨w, rfl, List.mem_of_mem_take (i := 255) ?_⟩
        simpa [nameOf, hn] using hb
    obtain ⟨w, hn, hb⟩ := hw
    -- every request that has a name has what stands behind the first blank
    have hline : w = afterChar space line := by
      subst hq
      unfold requestOfLine at hn
      dsimp only at hn
      split_ifs at hn <;> first | exact (Option.some.inj hn).symm | cases hn
    subst hline
    exact (List.dropWhile_sublist _).subset (List.mem_of_mem_tail hb)
  unfold requestOf at h
  split_ifs at h with hmem
  · exact hafter rfl h
  · cases h

theorem nameOf_no_nul (header : List Byte) : 0 ∉ nameOf (requestOf header) := fun h => by
  have hmem := (List.takeWhile_sublist _).subset (mem_of_mem_nameOf h)
  simpa using List.mem_takeWhile_imp hmem

theorem nameOf_no_newline (header : List Byte) : newline ∉ nameOf (requestOf header) := fun h => by
  simpa using List.mem_takeWhile_imp (mem_of_mem_nameOf h)

/-- `filepath` is not cut: six bytes, a slash and a name fit in its 1024 bytes. -/
theorem filepath_of_length_le {c : Ctx} (h : c.client.filename.length ≤ 255) :
    c.filepath = c.disk.tree.path c.client.filename := by
  have htemp := c.disk.tree.tempName_length
  refine List.take_of_length_le ?_
  simp only [List.length_append, List.length_singleton]
  omega

theorem HeaderOk.filepath_eq {c : Ctx} (h : HeaderOk c) :
    c.filepath = c.disk.tree.path c.client.filename :=
  filepath_of_length_le (h.name ▸ length_nameOf_le _)

end FileServer
