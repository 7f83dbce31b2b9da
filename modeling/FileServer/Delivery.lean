/-
  How a byte stream is delivered to a connection.

  `Delivers rx bytes`: the input `rx` brings these bytes and then the end of the
  stream, in any segmentation and with any reads that find nothing yet between the
  parts.  `afterBytes k rx` is what is left of the input right behind its `k`-th
  byte: a read there finds whatever happens to have arrived by then.  `Partway`
  follows the server through a stream.
-/
import FileServer.Steps

namespace FileServer

/-- The input brings these bytes, then the end of the stream. -/
inductive Delivers : List RxItem → List Byte → Prop
  | eof (rx : List RxItem) : Delivers (.eof :: rx) []
  | data (b : Byte) (bs : List Byte) {rx : List RxItem} {rest : List Byte} (h : Delivers rx rest) :
      Delivers (.data b bs :: rx) (b :: bs ++ rest)
  | eagain {rx : List RxItem} {rest : List Byte} (h : Delivers rx rest) :
      Delivers (.eagain :: rx) rest
  | eintr {rx : List RxItem} {rest : List Byte} (h : Delivers rx rest) :
      Delivers (.eintr :: rx) rest

/-- Skip the reads that find nothing yet. -/
def waitData : List RxItem → List RxItem
  | .eagain :: rx => waitData rx
  | .eintr :: rx => waitData rx
  | rx => rx

/-- What is left of an input right behind its `k`-th byte. -/
def afterBytes : Nat → List RxItem → List RxItem
  | 0, rx => rx
  | k + 1, rx =>
    match waitData rx with
    | .data _ bs :: rest => afterBytes k (pushBack bs rest)
    | rest => rest

/-- The bytes that an input brings before the end of the stream. -/
def incoming : List RxItem → List Byte
  | [] => []
  | .data b bs :: rx => b :: bs ++ incoming rx
  | .eof :: _ => []
  | _ :: rx => incoming rx

/-- The bytes that a read has found. -/
def ReadResult.found : ReadResult → List Byte
  | .bytes bs => bs
  | _ => []

theorem incoming_pushBack (bs : List Byte) (rx : List RxItem) :
    incoming (pushBack bs rx) = bs ++ incoming rx := by
  cases bs <;> rfl

/-- A read takes its bytes off the input, and nothing else. -/
theorem incoming_read (s : Script) (n : Nat) :
    incoming s.rx = (s.read n).1.found ++ incoming (s.read n).2.rx := by
  unfold Script.read
  cases hrx : s.rx with
  | nil => simp only [hrx]; rfl
  | cons x rx =>
    cases x with
    | data b bs =>
      simp only [ReadResult.found, incoming_pushBack]
      rw [← List.append_assoc, List.take_append_drop]
      rfl
    | eof => simp only [hrx]; rfl
    | eagain => rfl
    | eintr => rfl
    | err => rfl

namespace Delivers

variable {rx : List RxItem} {bytes : List Byte}

theorem pushBack (h : Delivers rx bytes) (bs : List Byte) :
    Delivers (pushBack bs rx) (bs ++ bytes) := by
  cases bs with
  | nil => exact h
  | cons b bs => exact .data b bs h

theorem ne_nil (h : Delivers rx bytes) : rx ≠ [] := by cases h <;> simp

/-- Waiting ends at the first byte, or at the end of the stream. -/
theorem waitData (h : Delivers rx bytes) : Delivers (waitData rx) bytes ∧
    ((∃ b bs rest, FileServer.waitData rx = .data b bs :: rest) ∨
      ∃ rest, FileServer.waitData rx = .eof :: rest) := by
  induction h with
  | eof rx => exact ⟨.eof rx, .inr ⟨rx, rfl⟩⟩
  | data b bs h => exact ⟨.data b bs h, .inl ⟨b, bs, _, rfl⟩⟩
  | eagain _ ih => exact ih
  | eintr _ ih => exact ih

theorem afterBytes {k : Nat} (h : Delivers rx bytes) (hk : k ≤ bytes.length) :
    Delivers (afterBytes k rx) (bytes.drop k) := by
  induction k generalizing rx bytes with
  | zero => exact h
  | succ k ih =>
    rw [FileServer.afterBytes]
    obtain ⟨hw, ⟨b, bs, rest, heq⟩ | ⟨rest, heq⟩⟩ := h.waitData
    · rw [heq] at hw ⊢
      cases hw with
      | @data _ _ _ tail htail =>
        rw [List.cons_append, List.length_cons] at hk
        exact ih (htail.pushBack bs) (Nat.le_of_succ_le_succ hk)
    · rw [heq] at hw
      cases hw
      rw [List.length_nil] at hk
      omega

end Delivers

/-! ### Reading -/

theorem afterBytes_pushBack {j : Nat} {bs : List Byte} (h : j ≤ bs.length) (k : Nat)
    (rx : List RxItem) :
    afterBytes (j + k) (pushBack bs rx) = afterBytes k (pushBack (bs.drop j) rx) := by
  induction j generalizing bs with
  | zero => rw [Nat.zero_add, List.drop_zero]
  | succ j ih =>
    cases bs with
    | nil => simp at h
    | cons b bs =>
      rw [List.length_cons] at h
      rw [Nat.succ_add, List.drop_succ_cons, ← ih (by omega)]
      rfl

section Read

variable {s : Script} {n : Nat} {bytes : List Byte}

/-- A read that finds bytes finds the next bytes of the stream. -/
theorem Delivers.read_bytes (h : Delivers s.rx bytes) (hn : 0 < n) {bs : List Byte}
    (hr : (s.read n).1 = .bytes bs) :
    bs ≠ [] ∧ ∃ rest, bytes = bs ++ rest ∧ Delivers (s.read n).2.rx rest ∧
      ∀ k, FileServer.afterBytes (bs.length + k) s.rx
        = FileServer.afterBytes k (s.read n).2.rx := by
  unfold Script.read at hr ⊢
  cases hrx : s.rx with
  | nil => exact absurd hrx h.ne_nil
  | cons x rx =>
    rw [hrx] at h
    simp only [hrx] at hr ⊢
    cases h with
    | eof => cases hr
    | @data b ds _ rest h =>
      obtain rfl := ReadResult.bytes.inj hr
      obtain ⟨n, rfl⟩ : ∃ m, n = m + 1 := ⟨n - 1, by omega⟩
      refine ⟨by simp, _, ?_, h.pushBack ((b :: ds).drop (n + 1)), fun k => ?_⟩
      · rw [← List.append_assoc, List.take_append_drop]
      · have hlen : ((b :: ds).take (n + 1)).length ≤ (b :: ds).length := List.length_take_le' ..
        have hdrop : (b :: ds).drop ((b :: ds).take (n + 1)).length = (b :: ds).drop (n + 1) := by
          rw [List.length_take]
          rcases Nat.le_total (n + 1) (b :: ds).length with hle | hle
          · rw [Nat.min_eq_left hle]
          · rw [Nat.min_eq_right hle, List.drop_length, List.drop_of_length_le hle]
        have hstep := afterBytes_pushBack hlen k rx
        rw [hdrop] at hstep
        exact hstep
    | eagain => cases hr
    | eintr => cases hr

/-- A read that finds nothing yet. -/
theorem Delivers.read_idle (h : Delivers s.rx bytes)
    (hr : (s.read n).1 = .eagain ∨ (s.read n).1 = .eintr) :
    Delivers (s.read n).2.rx bytes ∧
      ∀ k, 0 < k → FileServer.afterBytes k s.rx = FileServer.afterBytes k (s.read n).2.rx := by
  unfold Script.read at hr ⊢
  cases hrx : s.rx with
  | nil => exact absurd hrx h.ne_nil
  | cons x rx =>
    rw [hrx] at h
    simp only [hrx] at hr ⊢
    cases h with
    | eof => rcases hr with hr | hr <;> cases hr
    | data => rcases hr with hr | hr <;> cases hr
    | eagain h =>
      refine ⟨h, fun k hk => ?_⟩
      obtain ⟨k, rfl⟩ : ∃ m, k = m + 1 := ⟨k - 1, by omega⟩
      rfl
    | eintr h =>
      refine ⟨h, fun k hk => ?_⟩
      obtain ⟨k, rfl⟩ : ∃ m, k = m + 1 := ⟨k - 1, by omega⟩
      rfl

/-- A read that finds the end of the stream. -/
theorem Delivers.read_ended (h : Delivers s.rx bytes) (hn : 0 < n) (hr : (s.read n).1.Ended) :
    bytes = [] := by
  unfold Script.read at hr
  cases hrx : s.rx with
  | nil => exact absurd hrx h.ne_nil
  | cons x rx =>
    rw [hrx] at h
    simp only [hrx] at hr
    cases h with
    | eof => rfl
    | data b ds =>
      obtain ⟨n, rfl⟩ : ∃ m, n = m + 1 := ⟨n - 1, by omega⟩
      rcases hr with hr | hr | hr <;> cases hr
    | eagain => rcases hr with hr | hr | hr <;> cases hr
    | eintr => rcases hr with hr | hr | hr <;> cases hr

end Read

/-! ### A stream that is partly received -/

/-- Of the stream that `rx₀` delivers, these bytes were received, and `rx` is what is left. -/
structure Partway (rx₀ : List RxItem) (bytes received : List Byte) (rx : List RxItem) : Prop where
  rest : ∃ rest, Delivers rx rest ∧ bytes = received ++ rest
  after : ∀ k, 0 < k → afterBytes (received.length + k) rx₀ = afterBytes k rx

namespace Partway

variable {rx₀ : List RxItem} {bytes received bs : List Byte} {s : Script} {n : Nat}

theorem start {rx : List RxItem} (h : Delivers rx bytes) : Partway rx bytes [] rx :=
  ⟨⟨bytes, h, rfl⟩, fun k _ => by rw [List.length_nil, Nat.zero_add]⟩

theorem read_bytes (h : Partway rx₀ bytes received s.rx) (hn : 0 < n)
    (hr : (s.read n).1 = .bytes bs) :
    Partway rx₀ bytes (received ++ bs) (s.read n).2.rx ∧
      afterBytes (received ++ bs).length rx₀ = (s.read n).2.rx := by
  obtain ⟨rest, hrest, hbytes⟩ := h.rest
  obtain ⟨hne, rest', rfl, hrest', hafter⟩ := hrest.read_bytes hn hr
  have hpos := List.length_pos_of_ne_nil hne
  have hall : ∀ k, afterBytes ((received ++ bs).length + k) rx₀
      = afterBytes k (s.read n).2.rx := fun k => by
    rw [List.length_append, Nat.add_assoc, h.after _ (by omega), hafter]
  refine ⟨⟨⟨rest', hrest', by rw [hbytes, List.append_assoc]⟩, fun k _ => hall k⟩, ?_⟩
  exact hall 0

theorem read_idle (h : Partway rx₀ bytes received s.rx)
    (hr : (s.read n).1 = .eagain ∨ (s.read n).1 = .eintr) :
    Partway rx₀ bytes received (s.read n).2.rx := by
  obtain ⟨rest, hrest, hbytes⟩ := h.rest
  obtain ⟨hrest', hafter⟩ := hrest.read_idle hr
  exact ⟨⟨rest, hrest', hbytes⟩, fun k hk => (h.after k hk).trans (hafter k hk)⟩

theorem read_ended (h : Partway rx₀ bytes received s.rx) (hn : 0 < n) (hr : (s.read n).1.Ended) :
    bytes = received := by
  obtain ⟨rest, hrest, rfl⟩ := h.rest
  rw [hrest.read_ended hn hr, List.append_nil]

end Partway

end FileServer
