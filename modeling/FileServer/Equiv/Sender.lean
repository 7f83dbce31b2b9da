/-
  What the client writes as a request line.

  `write_all_to_socket` writes the bytes of its range in order (`takenFrom_prefix`,
  `takenFrom_all`), so whether a request stays inside its buffer is decided by the
  count it is given, and that is the length of the text before it was cut to the
  buffer.
-/
import FileServer.Sender

namespace FileServer

/-! ### Memory -/

section Memory

variable (mem : Nat → Byte)

@[simp] theorem length_bytesAt (start count : Nat) : (bytesAt mem start count).length = count := by
  rw [bytesAt, List.length_map, List.length_range]

theorem bytesAt_add (start m n : Nat) :
    bytesAt mem start (m + n) = bytesAt mem start m ++ bytesAt mem (start + m) n := by
  unfold bytesAt
  rw [List.range_add, List.map_append, List.map_map]
  refine congrArg _ (List.map_congr_left fun i _ => ?_)
  exact congrArg mem (Nat.add_assoc start m i).symm

theorem bytesAt_isPrefix {m n : Nat} (h : m ≤ n) (start : Nat) :
    bytesAt mem start m <+: bytesAt mem start n := by
  obtain ⟨k, rfl⟩ := Nat.exists_eq_add_of_le h
  exact bytesAt_add mem start m k ▸ List.prefix_append ..

theorem take_bytesAt (start m n : Nat) :
    (bytesAt mem start n).take m = bytesAt mem start (min m n) := by
  rw [List.prefix_iff_eq_take.mp (bytesAt_isPrefix mem (Nat.min_le_right m n) start), length_bytesAt]
  rcases Nat.le_total m n with h | h
  · rw [Nat.min_eq_left h]
  · rw [Nat.min_eq_right h, List.take_of_length_le (by rw [length_bytesAt]; exact h),
      List.take_of_length_le (by rw [length_bytesAt])]

end Memory

/-! ### The loop -/

/-- Every write is given the rest of the range. -/
theorem writeAllFrom_range {count : Nat} (items : List SendItem) (total : Nat) {w : SocketWrite}
    (h : w ∈ writeAllFrom count total items) : w.start + w.count = count := by
  induction items generalizing total with
  | nil =>
    unfold writeAllFrom at h
    split_ifs at h with hlt
    · obtain rfl := List.mem_singleton.mp h
      exact Nat.add_sub_cancel' hlt.le
    · cases h
  | cons x items ih =>
    unfold writeAllFrom at h
    split_ifs at h with hlt
    · cases x with
      | took n =>
        rcases List.mem_cons.mp h with rfl | h
        · exact Nat.add_sub_cancel' hlt.le
        · exact ih _ h
      | eintr =>
        rcases List.mem_cons.mp h with rfl | h
        · exact Nat.add_sub_cancel' hlt.le
        · exact ih _ h
      | err =>
        obtain rfl := List.mem_singleton.mp h
        exact Nat.add_sub_cancel' hlt.le
    · cases h

/-- The writes take a first part of the range, and all of it where none fails. -/
theorem takenFrom_writeAllFrom (mem : Nat → Byte) {count : Nat} (items : List SendItem)
    (total : Nat) :
    takenFrom mem (writeAllFrom count total items) <+: bytesAt mem total (count - total) ∧
      (.err ∉ items →
        takenFrom mem (writeAllFrom count total items) = bytesAt mem total (count - total)) := by
  have hnone : ∀ {total : Nat}, ¬ total < count → ∀ items, writeAllFrom count total items = [] := by
    intro total hlt items
    unfold writeAllFrom
    rw [if_neg hlt]
  have hbytes : ∀ {total : Nat}, ¬ total < count → bytesAt mem total (count - total) = [] := by
    intro total hlt
    rw [Nat.sub_eq_zero_of_le (Nat.le_of_not_lt hlt)]
    rfl
  induction items generalizing total with
  | nil =>
    by_cases hlt : total < count
    · have htaken : takenFrom mem (writeAllFrom count total [])
          = bytesAt mem total (count - total) := by
        unfold writeAllFrom
        rw [if_pos hlt]
        exact List.append_nil _
      exact ⟨htaken ▸ List.prefix_rfl, fun _ => htaken⟩
    · rw [hnone hlt, hbytes hlt]
      exact ⟨List.prefix_rfl, fun _ => rfl⟩
  | cons x items ih =>
    by_cases hlt : total < count
    · cases x with
      | took n =>
        -- what this write takes, and what remains behind it
        have hsplit : bytesAt mem total (count - total)
            = bytesAt mem total (min n (count - total)) ++
              bytesAt mem (total + min n (count - total))
                (count - (total + min n (count - total))) := by
          rw [← bytesAt_add]
          congr 1
          omega
        have htaken : takenFrom mem (writeAllFrom count total (.took n :: items))
            = bytesAt mem total (min n (count - total)) ++
              takenFrom mem (writeAllFrom count (total + min n (count - total)) items) := by
          conv_lhs => unfold writeAllFrom
          rw [if_pos hlt]
          rfl
        obtain ⟨hpre, hall⟩ := ih (total + min n (count - total))
        rw [htaken, hsplit]
        refine ⟨(List.prefix_append_right_inj _).mpr hpre, fun herr => ?_⟩
        rw [hall fun h => herr (List.mem_cons_of_mem _ h)]
      | eintr =>
        have htaken : takenFrom mem (writeAllFrom count total (.eintr :: items))
            = takenFrom mem (writeAllFrom count total items) := by
          conv_lhs => unfold writeAllFrom
          rw [if_pos hlt]
          rfl
        obtain ⟨hpre, hall⟩ := ih total
        rw [htaken]
        exact ⟨hpre, fun herr => hall fun h => herr (List.mem_cons_of_mem _ h)⟩
      | err =>
        have htaken : takenFrom mem (writeAllFrom count total (.err :: items)) = [] := by
          conv_lhs => unfold writeAllFrom
          rw [if_pos hlt]
          rfl
        rw [htaken]
        exact ⟨List.nil_prefix, fun herr => absurd (List.mem_cons_self ..) herr⟩
    · rw [hnone hlt, hbytes hlt]
      exact ⟨List.prefix_rfl, fun _ => rfl⟩

/-! ### The count -/

theorem toSize_snprintfReturn {text : List Byte} (h : text.length < 2 ^ 31) :
    toSize (snprintfReturn text) = text.length := by
  unfold toSize snprintfReturn
  rw [if_pos h]
  omega

/-- The count is the length of the text, or larger than any buffer. -/
theorem toSize_snprintfReturn_le_iff {text : List Byte} {n : Nat} (hn : n < 2 ^ 31) :
    toSize (snprintfReturn text) ≤ n ↔ text.length ≤ n := by
  by_cases h : text.length < 2 ^ 31
  · rw [toSize_snprintfReturn h]
  · have hreturn : snprintfReturn text = -1 := if_neg h
    have hsize : toSize (-1) = 2 ^ 64 - 1 := by decide
    rw [hreturn, hsize]
    omega

/-- The request line is written from what `snprintf` stored, and is a part of the text. -/
structure StaysInBuffer (r : RequestCall) (text : List Byte) : Prop where
  count : r.count ≤ r.stored.length
  range : ∀ items, ∀ w ∈ writeAllToSocket r.count items, w.start + w.count ≤ r.stored.length
  sent : ∀ mem, Holds mem r.stored → ∀ items,
    takenFrom mem (writeAllToSocket r.count items) <+: text

theorem length_requestText (verbStr : List Byte) (remote : Path) :
    (requestText verbStr remote).length = verbStr.length + remote.length + 2 := by
  simp only [requestText, List.length_append, List.length_singleton]
  omega

/-- What is written agrees with the text as far as the buffer goes. -/
theorem take_requestBytes {mem : Nat → Byte} {verbStr : List Byte} {remote : Path}
    (hmem : Holds mem (requestCall verbStr remote).stored) :
    (bytesAt mem 0 (requestCall verbStr remote).count).take (requestBufferSize - 1)
      = (requestText verbStr remote).take (requestBufferSize - 1) := by
  have hlen : min (requestBufferSize - 1) (requestCall verbStr remote).count
      = (requestCall verbStr remote).stored.length := by
    have hstored : (requestCall verbStr remote).stored.length
        = min (requestBufferSize - 1) (requestText verbStr remote).length := List.length_take ..
    rw [hstored]
    by_cases hle : (requestText verbStr remote).length < 2 ^ 31
    · rw [requestCall, toSize_snprintfReturn hle]
    · have hbig : ¬ (requestText verbStr remote).length ≤ requestBufferSize := by
        rw [requestBufferSize]
        omega
      have hcount := (toSize_snprintfReturn_le_iff (by decide)).not.mpr hbig
      change min _ (toSize _) = _
      rw [requestBufferSize] at hcount ⊢
      omega
  rw [take_bytesAt, hlen]
  exact hmem

theorem staysInBuffer_iff (verbStr : List Byte) (remote : Path) :
    StaysInBuffer (requestCall verbStr remote) (requestText verbStr remote) ↔
      verbStr.length + remote.length + 2 ≤ requestBufferSize - 1 := by
  have hstored : (requestCall verbStr remote).stored.length
      = min (requestBufferSize - 1) (requestText verbStr remote).length := List.length_take ..
  have hcount : ∀ {n : Nat}, n < 2 ^ 31 → ((requestCall verbStr remote).count ≤ n ↔
      verbStr.length + remote.length + 2 ≤ n) := fun hn =>
    (toSize_snprintfReturn_le_iff hn).trans (by rw [length_requestText])
  constructor
  · intro h
    have hle := h.count.trans (hstored.trans_le (Nat.min_le_left ..))
    exact (hcount (by decide)).mp hle
  · intro h
    have htext : (requestText verbStr remote).length ≤ requestBufferSize - 1 := by
      rwa [length_requestText]
    have hlen : (requestCall verbStr remote).stored.length
        = verbStr.length + remote.length + 2 := by
      rw [hstored, Nat.min_eq_right htext, length_requestText]
    have hle : (requestCall verbStr remote).count ≤ (requestCall verbStr remote).stored.length := by
      rw [hlen]
      exact (hcount (Nat.lt_of_le_of_lt h (by decide))).mpr (Nat.le_refl _)
    refine ⟨hle, fun items w hw => (writeAllFrom_range items 0 hw).trans_le hle,
      fun mem hmem items => ?_⟩
    have hpre := (takenFrom_writeAllFrom mem items 0).1.trans (bytesAt_isPrefix mem hle 0)
    have hall : (requestCall verbStr remote).stored = requestText verbStr remote :=
      List.take_of_length_le htext
    exact hall ▸ hmem ▸ hpre

/-- **A request line stays inside its buffer** exactly if the name leaves room for the verb, the
blank and the newline in 1023 bytes. -/
theorem requests_stay_in_buffer_iff (remote : Path) :
    (StaysInBuffer (handleGet remote) (requestText (ascii "GET") remote) ↔
      remote.length ≤ 1018) ∧
    (StaysInBuffer (handlePut remote) (requestText (ascii "PUT") remote) ↔
      remote.length ≤ 1018) ∧
    (StaysInBuffer (handleDelete remote) (requestText (ascii "DELETE") remote) ↔
      remote.length ≤ 1015) := by
  have hget : (ascii "GET").length = 3 := by decide
  have hput : (ascii "PUT").length = 3 := by decide
  have hdelete : (ascii "DELETE").length = 6 := by decide
  refine ⟨(staysInBuffer_iff _ _).trans ?_, (staysInBuffer_iff _ _).trans ?_,
    (staysInBuffer_iff _ _).trans ?_⟩
  · rw [hget, requestBufferSize]
    omega
  · rw [hput, requestBufferSize]
    omega
  · rw [hdelete, requestBufferSize]
    omega

/-- For a name of 1019 bytes one byte more is written than was stored. -/
theorem not_requests_stay_in_buffer_longName : ¬ ∀ remote,
    StaysInBuffer (handleGet remote) (requestText (ascii "GET") remote) := by
  intro h
  have hle := (staysInBuffer_iff (ascii "GET") _).mp (h (List.replicate 1019 97))
  rw [List.length_replicate] at hle
  revert hle
  decide

end FileServer
