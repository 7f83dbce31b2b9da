/-
  The loops of `common.c` on one stream.

  A stream is what any sequence of `write_all_to_socket` calls got out; it is delivered
  in any segmentation and consumed by any sequence of `read_line_from_socket` and
  `read_all_from_socket` calls.  `framed` says that the calls return the stream piece
  by piece: no byte is lost, none is returned twice.

  At the end of the stream `read_line_from_socket` returns 0 and stores nothing, so its
  buffer is terminated only where it returns more than that.
-/
import FileServer.Equiv.Socket

namespace FileServer

/-! ### Calls -/

/-- A call of `write_all_to_socket` with these bytes, and what its writes meet. -/
structure WriteCall where
  bytes : List Byte
  items : List SendItem

/-- The call. -/
def WriteCall.run (c : WriteCall) : Emission := writeAll c.bytes.length 0 c.items

/-- The bytes that the call got out. -/
def WriteCall.sent (c : WriteCall) : List Byte := c.run.taken c.bytes

/-- The stream that some calls have produced. -/
def streamOf (calls : List WriteCall) : List Byte := calls.flatMap WriteCall.sent

/-- A call that reads, with the size of its buffer or its count. -/
inductive ReadCall
  | line (size : Nat)
  | all (count : Nat)
  deriving DecidableEq

/-- The call. -/
def ReadCall.run : ReadCall → Script → Reading
  | .line size, s => readLineFromSocket s size
  | .all count, s => readAllFromSocket s count

/-- Calls one after the other. -/
def readings : List ReadCall → Script → List Reading
  | [], _ => []
  | c :: calls, s => c.run s :: readings calls (c.run s).script

/-- The bytes that a call has returned. -/
def Reading.got (r : Reading) : List Byte := r.buffer.take r.result.toNat

/-! ### What the calls should do -/

/-- The writes end; they take a first part of the bytes, once and in order, and the count is
returned exactly where that is all of them. -/
structure WriteCall.Sends (c : WriteCall) : Prop where
  ends : c.run.writes.length ≤ c.bytes.length + c.items.count .eintr
  inside : ∀ w ∈ c.run.writes, w.start + w.count = c.bytes.length
  inOrder : c.sent <+: c.bytes
  returns : c.run.result = c.bytes.length ∨ c.run.result = -1
  count_iff : c.run.result = c.bytes.length ↔ c.sent = c.bytes

/-- A line ends here: a newline, a full buffer or the end of the stream. -/
def LineStop (size : Nat) (unread u : List Byte) : Prop :=
  u.getLast? = some newline ∨ u.length = size - 1 ∨ u = unread

/-- The shortest first part of the unread bytes at which a line ends. -/
structure ShortestLine (size : Nat) (unread u : List Byte) : Prop where
  isPrefix : u <+: unread
  stops : LineStop size unread u
  shortest : ∀ v, v <+: unread → LineStop size unread v → u.length ≤ v.length

/-- What is returned is in the buffer, and a NUL behind it, also in the buffer. -/
def Reading.Terminated (size : Nat) (r : Reading) : Prop :=
  r.buffer = r.got ++ [0] ∧ r.got.length < size

/-- What a call returns of the unread bytes; `nul` is what holds of the buffer of a line. -/
def ReadCall.Returns (nul : Nat → Reading → Prop) (unread : List Byte) (r : Reading) :
    ReadCall → Prop
  | .line size => ShortestLine size unread r.got ∧ r.result = r.got.length ∧ nul size r
  | .all count => r.got = unread.take count ∧ r.result = r.got.length ∧ r.buffer = r.got

/-- Each call reads on where the one before it has stopped. -/
def ReadsOn (nul : Nat → Reading → Prop) : List Byte → List ReadCall → List Reading → Prop
  | _, [], rs => rs = []
  | _, _ :: _, [] => False
  | unread, c :: calls, r :: rs =>
    c.Returns nul unread r ∧ ReadsOn nul (unread.drop r.got.length) calls rs

/-! ### Writes -/

theorem WriteCall.sends {c : WriteCall} (h : .took 0 ∉ c.items) : c.Sends where
  ends := length_writeAll_writes h 0
  inside w hw := by
    rw [WriteCall.run, writeAll_writes] at hw
    exact writeAllFrom_range _ _ hw
  inOrder := by
    rcases writeAll_taken c.bytes c.items with ⟨-, htaken⟩ | ⟨-, -, hpre, -⟩
    · exact htaken ▸ List.prefix_rfl
    · exact hpre
  returns := (writeAll_taken c.bytes c.items).imp And.left And.left
  count_iff := by
    rcases writeAll_taken c.bytes c.items with ⟨hresult, htaken⟩ | ⟨hresult, -, -, hne⟩
    · exact ⟨fun _ => htaken, fun _ => hresult⟩
    · refine ⟨fun hcount => ?_, fun hall => absurd hall hne⟩
      rw [WriteCall.run, hresult] at hcount
      omega

/-! ### Reads -/

/-- A line ends where its first byte makes it end, or behind that where the rest of it does. -/
theorem lineStop_cons {k : Nat} {b : Byte} {unread u : List Byte} (hb : b ≠ newline) :
    LineStop (k + 2) (b :: unread) (b :: u) ↔ LineStop (k + 1) unread u := by
  refine or_congr ?_ (or_congr ?_ ?_)
  · cases u with
    | nil => exact ⟨fun h => absurd (Option.some.inj h) hb, fun h => by cases h⟩
    | cons c u => rw [List.getLast?_cons_cons]
  · rw [List.length_cons]
    omega
  · exact ⟨fun h => (List.cons.inj h).2, fun h => congrArg _ h⟩

theorem shortestLine_lineOf (k : Nat) (unread : List Byte) :
    ShortestLine (k + 1) unread (lineOf k unread) := by
  induction k generalizing unread with
  | zero => exact ⟨List.nil_prefix, .inr (.inl rfl), fun _ _ _ => Nat.zero_le _⟩
  | succ k ih =>
    cases unread with
    | nil => exact ⟨List.prefix_rfl, .inr (.inr rfl), fun _ _ _ => Nat.zero_le _⟩
    | cons b unread =>
      -- there is a byte to read, so the empty line is no line
      have hcons : ∀ v, v <+: b :: unread → LineStop (k + 2) (b :: unread) v →
          ∃ u, v = b :: u ∧ u <+: unread := by
        intro v hv hstop
        cases v with
        | nil => rcases hstop with h | h | h <;> cases h
        | cons c u =>
          obtain ⟨rfl, hu⟩ := List.cons_prefix_cons.mp hv
          exact ⟨u, rfl, hu⟩
      refine ⟨lineOf_isPrefix _ _, ?_, fun v hv hstop => ?_⟩
      · unfold lineOf
        split_ifs with hb
        · exact .inl (congrArg some hb)
        · exact (lineStop_cons hb).mpr (ih unread).stops
      · obtain ⟨u, rfl, hu⟩ := hcons v hv hstop
        unfold lineOf
        split_ifs with hb
        · exact Nat.succ_le_succ (Nat.zero_le _)
        · exact Nat.succ_le_succ ((ih unread).shortest u hu ((lineStop_cons hb).mp hstop))

section Stream

variable {rx₀ : List RxItem} {received rest : List Byte} {s : Script}

/-- One call returns the next bytes of the stream, and the next call reads on behind them. -/
theorem ReadCall.run_returns (c : ReadCall) (h : Arriving rx₀ received rest s)
    (hsize : ∀ size, c = .line size → 2 ≤ size) :
    c.Returns (fun size r => 0 < r.result → r.Terminated size) rest (c.run s) ∧
      ∃ rest', rest = (c.run s).got ++ rest' ∧
        Arriving rx₀ (received ++ (c.run s).got) rest' (c.run s).script := by
  cases c with
  | line size =>
    have hle := hsize size rfl
    obtain ⟨hbuffer, hresult, rest', hrest, h', -⟩ := h.readLine hle
    have hnat : (readLineFromSocket s size).result.toNat = (lineOf (size - 1) rest).length := by
      rw [hresult, Int.toNat_natCast]
    have hgot : (readLineFromSocket s size).got = lineOf (size - 1) rest := by
      rw [Reading.got, hbuffer, hnat]
      split_ifs with hempty
      · rw [hempty, List.take_nil]
      · exact List.take_left
    have hline := shortestLine_lineOf (size - 1) rest
    rw [Nat.sub_add_cancel (by omega : 1 ≤ size)] at hline
    rw [ReadCall.Returns, ReadCall.run, hgot]
    refine ⟨⟨hline, hresult, fun hpos => ⟨?_, ?_⟩⟩, rest', hrest, h'⟩
    · rw [hbuffer, hgot, if_neg]
      intro hempty
      rw [hresult, hempty] at hpos
      exact absurd hpos (by decide)
    · have hlen : (lineOf (size - 1) rest).length ≤ size - 1 := length_lineOf_le ..
      rw [hgot]
      omega
  | all count =>
    obtain ⟨hbuffer, hresult, h', -⟩ := h.readAll count
    have hnat : (readAllFromSocket s count).result.toNat = (rest.take count).length := by
      rw [hresult, Int.toNat_natCast]
    have hgot : (readAllFromSocket s count).got = rest.take count := by
      rw [Reading.got, hbuffer, hnat, List.take_length]
    rw [ReadCall.Returns, ReadCall.run, hgot]
    exact ⟨⟨rfl, hresult, hbuffer⟩, rest.drop count, (List.take_append_drop ..).symm, h'⟩

theorem readings_readsOn (calls : List ReadCall) (h : Arriving rx₀ received rest s)
    (hsize : ∀ size, .line size ∈ calls → 2 ≤ size) :
    ReadsOn (fun size r => 0 < r.result → r.Terminated size) rest calls (readings calls s) ∧
      (readings calls s).flatMap Reading.got <+: rest := by
  induction calls generalizing received rest s with
  | nil => exact ⟨rfl, List.nil_prefix⟩
  | cons c calls ih =>
    obtain ⟨hreturns, rest', hrest, h'⟩ :=
      c.run_returns h fun size hc => hsize size (hc ▸ List.mem_cons_self ..)
    obtain ⟨hreads, hpre⟩ := ih h' fun size hc => hsize size (List.mem_cons_of_mem _ hc)
    have hdrop : rest.drop (c.run s).got.length = rest' := by
      conv_lhs => rw [hrest]
      exact List.drop_left
    refine ⟨⟨hreturns, by rw [hdrop]; exact hreads⟩, ?_⟩
    rw [readings, List.flatMap_cons]
    conv_rhs => rw [hrest]
    exact (List.prefix_append_right_inj _).mpr hpre

end Stream

/-- **Framing.** The writes send their bytes once and in order; the reads return the stream piece by
piece, each its own piece of it, and behind a line that is not empty there is a NUL. -/
theorem framed (writes : List WriteCall) (reads : List ReadCall) (s : Script)
    (hmoves : ∀ c ∈ writes, .took 0 ∉ c.items) (hdelivers : Delivers s.rx (streamOf writes))
    (hblock : .eagain ∉ s.rx) (hsize : ∀ size, .line size ∈ reads → 2 ≤ size) :
    (∀ c ∈ writes, c.Sends) ∧
    ReadsOn (fun size r => 0 < r.result → r.Terminated size) (streamOf writes) reads
      (readings reads s) ∧
    (readings reads s).flatMap Reading.got <+: streamOf writes :=
  ⟨fun c hc => WriteCall.sends (hmoves c hc),
    readings_readsOn reads (.start hdelivers hblock) hsize⟩

/-- A text line and a binary field, delivered with breaks in both. -/
theorem framed_lineThenField :
    (∀ c ∈ [WriteCall.mk [79, 75, 10] [.took 1, .eintr], ⟨[1, 2], []⟩], c.Sends) ∧
    ReadsOn (fun size r => 0 < r.result → r.Terminated size) [79, 75, 10, 1, 2]
      [.line 1024, .all 8]
      (readings [.line 1024, .all 8]
        ⟨[.data 79 [75], .eintr, .data 10 [1], .data 2 [], .eof], [], [], []⟩) ∧
    (readings [.line 1024, .all 8]
        ⟨[.data 79 [75], .eintr, .data 10 [1], .data 2 [], .eof], [], [], []⟩).flatMap Reading.got
      <+: [79, 75, 10, 1, 2] :=
  framed [⟨[79, 75, 10], [.took 1, .eintr]⟩, ⟨[1, 2], []⟩] [.line 1024, .all 8]
    ⟨[.data 79 [75], .eintr, .data 10 [1], .data 2 [], .eof], [], [], []⟩
    (by simp)
    (.data 79 [75] (.eintr (.data 10 [1] (.data 2 [] (.eof [])))))
    (by simp)
    (by simp)

/-- At the end of the stream nothing is stored, no NUL either. -/
theorem not_framed_endOfStream : ¬ ∀ (writes : List WriteCall) (reads : List ReadCall) (s : Script),
    (∀ c ∈ writes, .took 0 ∉ c.items) → Delivers s.rx (streamOf writes) → .eagain ∉ s.rx →
    (∀ size, .line size ∈ reads → 2 ≤ size) →
    (∀ c ∈ writes, c.Sends) ∧
    ReadsOn (fun size r => r.Terminated size) (streamOf writes) reads (readings reads s) ∧
    (readings reads s).flatMap Reading.got <+: streamOf writes := by
  intro h
  obtain ⟨-, ⟨⟨-, -, hterminated, -⟩, -⟩, -⟩ :=
    h [] [.line 2] ⟨[.eof], [], [], []⟩ (by simp) (.eof []) (by simp) (by simp)
  exact absurd hterminated (by decide)

end FileServer
