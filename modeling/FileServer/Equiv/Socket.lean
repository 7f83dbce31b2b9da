/-
  What the loops of `common.c` read and write.

  `Took s bs s'`: reads have taken the bytes `bs` from the input of `s`, and `s'` is
  right behind them.  `AllRead` and `LineEnd` say how a call ends, for any input;
  `Arriving.readAll` and `Arriving.readLine` what it returns where the input brings a
  stream to its end.  `writeAll_taken` is the same for `write_all_to_socket`.
-/
import FileServer.Socket
import FileServer.Delivery
import FileServer.Equiv.Steps
import FileServer.Equiv.Sender

namespace FileServer

open Loop

/-! ### Reads -/

/-- Reads that were interrupted. -/
inductive Waits (s : Script) : Script → Prop
  | refl : Waits s s
  | eintr {s' : Script} {n : Nat} (h : Waits s s') (hr : (s'.read n).1 = .eintr) :
      Waits s (s'.read n).2

/-- Reads that took these bytes, the last read the last of them. -/
inductive Took (s : Script) : List Byte → Script → Prop
  | refl : Took s [] s
  | bytes {bs cs : List Byte} {s' s'' : Script} {n : Nat} (h : Took s bs s') (hw : Waits s' s'')
      (hn : 0 < n) (hne : cs ≠ []) (hr : (s''.read n).1 = .bytes cs) :
      Took s (bs ++ cs) (s''.read n).2

/-- The read found the end of the stream. -/
def ReadResult.AtEnd (r : ReadResult) : Prop := r = .eof ∨ r = .bytes []

/-- The read failed. -/
def ReadResult.Failed (r : ReadResult) : Prop := r = .err ∨ r = .eagain

/-- How a call of `read_all_from_socket` ends. -/
inductive AllRead (s : Script) (count : Nat) (r : Reading) : Prop
  | full (h : Took s r.buffer r.script) (hlen : r.buffer.length = count)
      (hresult : r.result = count)
  | ended {s' s'' : Script} {n : Nat} (h : Took s r.buffer s') (hw : Waits s' s'') (hn : 0 < n)
      (hr : (s''.read n).1.AtEnd) (hscript : r.script = (s''.read n).2)
      (hlen : r.buffer.length < count) (hresult : r.result = r.buffer.length)
  | failed {s' s'' : Script} {n : Nat} (h : Took s r.buffer s') (hw : Waits s' s'')
      (hr : (s''.read n).1.Failed) (hscript : r.script = (s''.read n).2)
      (hresult : r.result = -1)

/-- How a call of `read_line_from_socket` ends. -/
inductive LineEnd (s : Script) (size : Nat) (r : Reading) : Prop
  | line {u : List Byte} (h : Took s u r.script) (hu : newline ∉ u.dropLast)
      (hend : u.length = size - 1 ∨ u.getLast? = some newline) (hlen : u.length ≤ size - 1)
      (hbuffer : r.buffer = u ++ [0]) (hresult : r.result = u.length)
  | ended {u : List Byte} {s' s'' : Script} (h : Took s u s') (hw : Waits s' s'')
      (hr : (s''.read 1).1.AtEnd) (hscript : r.script = (s''.read 1).2) (hu : newline ∉ u)
      (hlen : u.length < size - 1) (hbuffer : r.buffer = if u = [] then [] else u ++ [0])
      (hresult : r.result = u.length)
  | failed {u : List Byte} {s' s'' : Script} (h : Took s u s') (hw : Waits s' s'')
      (hr : (s''.read 1).1.Failed) (hscript : r.script = (s''.read 1).2)
      (hresult : r.result = -1)

section Loops

variable {s : Script} {count size : Nat} {r r' : Reading}

/-- What a pass of the loop of `read_all_from_socket` does. -/
theorem readAllPass_cases (count : Nat) (r : Reading) :
    (¬ r.buffer.length < count ∧ readAllPass count r = .leave r) ∨
    r.buffer.length < count ∧ ∃ n, 0 < n ∧
      (((r.script.read n).1 = .eintr ∧
        readAllPass count r = .again { r with script := (r.script.read n).2 }) ∨
      (∃ bs, bs ≠ [] ∧ (r.script.read n).1 = .bytes bs ∧ bs.length ≤ count - r.buffer.length ∧
        readAllPass count r =
          .again { r with buffer := r.buffer ++ bs, script := (r.script.read n).2 }) ∨
      ((r.script.read n).1.AtEnd ∧ readAllPass count r =
        .ret { r with result := r.buffer.length, script := (r.script.read n).2 }) ∨
      ((r.script.read n).1.Failed ∧ readAllPass count r =
        .ret { r with result := -1, script := (r.script.read n).2 })) := by
  unfold readAllPass
  by_cases hlt : r.buffer.length < count
  · right
    refine ⟨hlt, count - r.buffer.length, by omega, ?_⟩
    rw [if_pos hlt]
    have hle : ∀ bs, (r.script.read (count - r.buffer.length)).1 = .bytes bs →
        bs.length ≤ count - r.buffer.length := fun bs hr => length_read_le hr
    cases hr : (r.script.read (count - r.buffer.length)).1 with
    | bytes bs =>
      cases bs with
      | nil => exact .inr (.inr (.inl ⟨.inr rfl, by simp only [hr]⟩))
      | cons b bs => exact .inr (.inl ⟨b :: bs, by simp, rfl, hle _ hr, by simp only [hr]⟩)
    | eof => exact .inr (.inr (.inl ⟨.inl rfl, by simp only [hr]⟩))
    | eagain => exact .inr (.inr (.inr ⟨.inr rfl, by simp only [hr]⟩))
    | eintr => exact .inl ⟨rfl, by simp only [hr]⟩
    | err => exact .inr (.inr (.inr ⟨.inl rfl, by simp only [hr]⟩))
  · exact .inl ⟨hlt, if_neg hlt⟩

theorem readAllPass_decreases (count : Nat) :
    Decreases (readAllPass count) fun r => rxWeight r.script.rx := by
  intro r r' h
  rcases readAllPass_cases count r with ⟨-, heq⟩ | ⟨-, n, -, ⟨hr, heq⟩ | ⟨bs, hne, hr, -, heq⟩ |
    ⟨-, heq⟩ | ⟨-, heq⟩⟩ <;> rw [heq] at h
  · cases h
  · obtain rfl := Pass.again.inj h
    exact rxWeight_read_eintr hr
  · obtain rfl := Pass.again.inj h
    exact rxWeight_read_bytes hr hne
  · cases h
  · cases h

/-- **`read_all_from_socket`**, for any input. -/
theorem readAll_end (s : Script) (count : Nat) : AllRead s count (readAllFromSocket s count) := by
  obtain ⟨t, ⟨hlen, s', htook, hwaits, hexact⟩, hexec, hfinal⟩ :=
    exec_spec (readAllPass_decreases count)
      (I := fun r => r.buffer.length ≤ count ∧ ∃ s', Took s r.buffer s' ∧ Waits s' r.script ∧
        (r.buffer.length = count → r.script = s'))
      (fun r r' ⟨hlen, s', htook, hwaits, _⟩ h => by
        rcases readAllPass_cases count r with ⟨-, heq⟩ | ⟨hlt, n, hn, ⟨hr, heq⟩ |
          ⟨bs, hne, hr, hle, heq⟩ | ⟨-, heq⟩ | ⟨-, heq⟩⟩ <;> rw [heq] at h
        · cases h
        · obtain rfl := Pass.again.inj h
          exact ⟨hlen, s', htook, hwaits.eintr hr, fun hfull => absurd hfull hlt.ne⟩
        · obtain rfl := Pass.again.inj h
          refine ⟨?_, _, htook.bytes hwaits hn hne hr, .refl, fun _ => rfl⟩
          simp only [List.length_append]
          omega
        · cases h
        · cases h)
      (s := ⟨[], 0, s⟩) ⟨Nat.zero_le _, s, .refl, .refl, fun _ => rfl⟩
  unfold readAllFromSocket
  rw [hexec]
  rcases readAllPass_cases count t with ⟨hlt, heq⟩ | ⟨hlt, n, hn, ⟨hr, heq⟩ |
    ⟨bs, hne, hr, hle, heq⟩ | ⟨hr, heq⟩ | ⟨hr, heq⟩⟩
  · rw [heq]
    have hfull := Nat.le_antisymm hlen (Nat.le_of_not_lt hlt)
    refine .full ?_ hfull (congrArg Int.ofNat hfull)
    change Took s t.buffer t.script
    rw [hexact hfull]
    exact htook
  · rw [heq] at hfinal
    exact hfinal.elim
  · rw [heq] at hfinal
    exact hfinal.elim
  · rw [heq]
    exact .ended htook hwaits hn hr rfl hlt rfl
  · rw [heq]
    exact .failed htook hwaits hr rfl rfl

/-- What a pass of the loop of `read_line_from_socket` does. -/
theorem readLinePass_cases (size : Nat) (r : Reading) :
    (¬ r.buffer.length < size - 1 ∧ readLinePass size r = .leave r) ∨
    r.buffer.length < size - 1 ∧
      (((r.script.read 1).1 = .eintr ∧
        readLinePass size r = .again { r with script := (r.script.read 1).2 }) ∨
      (∃ c, (r.script.read 1).1 = .bytes [c] ∧ readLinePass size r =
        if c = newline
        then .leave { r with buffer := r.buffer ++ [c], script := (r.script.read 1).2 }
        else .again { r with buffer := r.buffer ++ [c], script := (r.script.read 1).2 }) ∨
      ((r.script.read 1).1.AtEnd ∧ readLinePass size r =
        if r.buffer.length = 0 then .ret { r with result := 0, script := (r.script.read 1).2 }
        else .leave { r with script := (r.script.read 1).2 }) ∨
      ((r.script.read 1).1.Failed ∧ readLinePass size r =
        .ret { r with result := -1, script := (r.script.read 1).2 })) := by
  unfold readLinePass
  by_cases hlt : r.buffer.length < size - 1
  · right
    refine ⟨hlt, ?_⟩
    rw [if_pos hlt]
    have hle : ∀ bs, (r.script.read 1).1 = .bytes bs → bs.length ≤ 1 := fun bs hr =>
      length_read_le hr
    cases hr : (r.script.read 1).1 with
    | bytes bs =>
      cases bs with
      | nil => exact .inr (.inr (.inl ⟨.inr rfl, by simp only [hr]⟩))
      | cons c cs =>
        obtain rfl : cs = [] := by
          have hlen := hle _ hr
          rw [List.length_cons] at hlen
          exact List.length_eq_zero_iff.mp (by omega)
        exact .inr (.inl ⟨c, rfl, by simp only [hr]⟩)
    | eof => exact .inr (.inr (.inl ⟨.inl rfl, by simp only [hr]⟩))
    | eagain => exact .inr (.inr (.inr ⟨.inr rfl, by simp only [hr]⟩))
    | eintr => exact .inl ⟨rfl, by simp only [hr]⟩
    | err => exact .inr (.inr (.inr ⟨.inl rfl, by simp only [hr]⟩))
  · exact .inl ⟨hlt, if_neg hlt⟩

theorem readLinePass_decreases (size : Nat) :
    Decreases (readLinePass size) fun r => rxWeight r.script.rx := by
  intro r r' h
  rcases readLinePass_cases size r with ⟨-, heq⟩ | ⟨-, ⟨hr, heq⟩ | ⟨c, hr, heq⟩ | ⟨-, heq⟩ |
    ⟨-, heq⟩⟩ <;> rw [heq] at h
  · cases h
  · obtain rfl := Pass.again.inj h
    exact rxWeight_read_eintr hr
  · split_ifs at h
    obtain rfl := Pass.again.inj h
    exact rxWeight_read_bytes hr (List.cons_ne_nil _ _)
  · split_ifs at h
  · cases h

/-- **`read_line_from_socket`**, for any input. -/
theorem readLine_end (s : Script) (size : Nat) : LineEnd s size (readLineFromSocket s size) := by
  obtain ⟨t, ⟨hlen, hnl, s', htook, hwaits, hexact⟩, hexec, hfinal⟩ :=
    exec_spec (readLinePass_decreases size)
      (I := fun r => r.buffer.length ≤ size - 1 ∧ newline ∉ r.buffer ∧
        ∃ s', Took s r.buffer s' ∧ Waits s' r.script ∧
          (r.buffer.length = size - 1 → r.script = s'))
      (fun r r' ⟨hlen, hnl, s', htook, hwaits, _⟩ h => by
        rcases readLinePass_cases size r with ⟨-, heq⟩ | ⟨hlt, ⟨hr, heq⟩ | ⟨c, hr, heq⟩ |
          ⟨-, heq⟩ | ⟨-, heq⟩⟩ <;> rw [heq] at h
        · cases h
        · obtain rfl := Pass.again.inj h
          exact ⟨hlen, hnl, s', htook, hwaits.eintr hr, fun hfull => absurd hfull hlt.ne⟩
        · split_ifs at h with hc
          obtain rfl := Pass.again.inj h
          refine ⟨?_, ?_, _, htook.bytes hwaits Nat.one_pos (List.cons_ne_nil _ _) hr, .refl,
            fun _ => rfl⟩
          · simp only [List.length_append, List.length_singleton]
            omega
          · intro hmem
            rcases List.mem_append.mp hmem with hmem | hmem
            · exact hnl hmem
            · exact hc (List.mem_singleton.mp hmem).symm
        · split_ifs at h
        · cases h)
      (s := ⟨[], 0, s⟩)
      ⟨Nat.zero_le _, List.not_mem_nil, s, .refl, .refl, fun _ => rfl⟩
  unfold readLineFromSocket
  rw [hexec]
  rcases readLinePass_cases size t with ⟨hlt, heq⟩ | ⟨hlt, ⟨hr, heq⟩ | ⟨c, hr, heq⟩ | ⟨hr, heq⟩ |
    ⟨hr, heq⟩⟩
  · rw [heq]
    have hfull := Nat.le_antisymm hlen (Nat.le_of_not_lt hlt)
    refine .line (u := t.buffer) ?_ (fun hmem => hnl (List.dropLast_subset _ hmem)) (.inl hfull)
      hlen rfl rfl
    change Took s t.buffer t.script
    rw [hexact hfull]
    exact htook
  · rw [heq] at hfinal
    exact hfinal.elim
  · by_cases hc : c = newline
    · rw [heq, if_pos hc]
      have htook' := htook.bytes hwaits Nat.one_pos (List.cons_ne_nil _ _) hr
      refine .line htook' ?_ (.inr ?_) ?_ rfl rfl
      · rw [List.dropLast_concat]
        exact hnl
      · rw [List.getLast?_concat, hc]
      · rw [List.length_append, List.length_singleton]
        omega
    · rw [heq, if_neg hc] at hfinal
      exact hfinal.elim
  · by_cases hempty : t.buffer.length = 0
    · have hnil := List.length_eq_zero_iff.mp hempty
      rw [heq, if_pos hempty]
      refine .ended htook hwaits hr rfl hnl hlt ?_ ?_
      · rw [if_pos hnil]
        exact hnil
      · rw [hempty]
        rfl
    · rw [heq, if_neg hempty]
      refine .ended htook hwaits hr rfl hnl hlt ?_ rfl
      rw [if_neg fun hnil => hempty (by rw [hnil]; rfl)]
      rfl
  · rw [heq]
    exact .failed htook hwaits hr rfl rfl

end Loops

/-! ### Lines -/

/-- The line that starts these bytes: up to the first newline, at most `k` bytes. -/
def lineOf : Nat → List Byte → List Byte
  | 0, _ => []
  | _ + 1, [] => []
  | k + 1, b :: bs => if b = newline then [b] else b :: lineOf k bs

theorem lineOf_eq_nil_iff {k : Nat} (hk : 0 < k) (bs : List Byte) : lineOf k bs = [] ↔ bs = [] := by
  obtain ⟨k, rfl⟩ : ∃ m, k = m + 1 := ⟨k - 1, by omega⟩
  cases bs with
  | nil => exact ⟨fun _ => rfl, fun _ => rfl⟩
  | cons b bs =>
    unfold lineOf
    split_ifs <;> simp

/-- A newline at the end, or `k` bytes, make a line. -/
theorem lineOf_append {k : Nat} {u : List Byte} (hu : newline ∉ u.dropLast)
    (hend : u.length = k ∨ u.getLast? = some newline) (hlen : u.length ≤ k) (bs : List Byte) :
    lineOf k (u ++ bs) = u := by
  induction u generalizing k with
  | nil =>
    obtain rfl : k = 0 := by
      rcases hend with h | h
      · exact h.symm
      · cases h
    rfl
  | cons b u ih =>
    rw [List.length_cons] at hend hlen
    obtain ⟨k, rfl⟩ : ∃ m, k = m + 1 := ⟨k - 1, by omega⟩
    rw [List.cons_append, lineOf]
    cases u with
    | nil =>
      split_ifs with hb
      · rfl
      · -- the byte is no newline, so the line is full
        obtain rfl : k = 0 := by
          rcases hend with h | h
          · rw [List.length_nil] at h
            omega
          · exact absurd (Option.some.inj h) hb
        rfl
    | cons c u =>
      rw [List.dropLast_cons_cons, List.mem_cons, not_or] at hu
      rw [if_neg fun hb => hu.1 hb.symm]
      refine congrArg (b :: ·) (ih hu.2 ?_ (by omega))
      rw [List.getLast?_cons_cons] at hend
      exact hend.imp_left fun h => by omega

theorem lineOf_of_not_mem {k : Nat} {u : List Byte} (hu : newline ∉ u) (hlen : u.length ≤ k) :
    lineOf k u = u := by
  induction u generalizing k with
  | nil => cases k <;> rfl
  | cons b u ih =>
    rw [List.length_cons] at hlen
    rw [List.mem_cons, not_or] at hu
    obtain ⟨k, rfl⟩ : ∃ m, k = m + 1 := ⟨k - 1, by omega⟩
    rw [lineOf, if_neg fun hb => hu.1 hb.symm, ih hu.2 (by omega)]

theorem lineOf_isPrefix (k : Nat) (bs : List Byte) : lineOf k bs <+: bs := by
  induction k generalizing bs with
  | zero => exact List.nil_prefix
  | succ k ih =>
    cases bs with
    | nil => exact List.prefix_rfl
    | cons b bs =>
      unfold lineOf
      split_ifs
      · exact List.cons_prefix_cons.mpr ⟨rfl, List.nil_prefix⟩
      · exact List.cons_prefix_cons.mpr ⟨rfl, ih bs⟩

theorem newline_notMem_dropLast_lineOf (k : Nat) (bs : List Byte) :
    newline ∉ (lineOf k bs).dropLast := by
  induction k generalizing bs with
  | zero => exact List.not_mem_nil
  | succ k ih =>
    cases bs with
    | nil => exact List.not_mem_nil
    | cons b bs =>
      unfold lineOf
      split_ifs with hb
      · exact List.not_mem_nil
      · cases hline : lineOf k bs with
        | nil => exact List.not_mem_nil
        | cons c u =>
          rw [List.dropLast_cons_cons, List.mem_cons, not_or, ← hline]
          exact ⟨fun h => hb h.symm, ih bs⟩

/-- The line is this one exactly if the bytes start with it. -/
theorem lineOf_eq_iff {k : Nat} {u : List Byte} (hu : newline ∉ u) (hlen : u.length < k)
    (bs : List Byte) : lineOf k bs = u ++ [newline] ↔ u ++ [newline] <+: bs := by
  constructor
  · intro h
    exact h ▸ lineOf_isPrefix k bs
  · rintro ⟨rest, rfl⟩
    refine lineOf_append ?_ (.inr List.getLast?_concat) ?_ rest
    · rw [List.dropLast_concat]
      exact hu
    · rw [List.length_append, List.length_singleton]
      omega

theorem length_lineOf_le (k : Nat) (bs : List Byte) : (lineOf k bs).length ≤ k := by
  induction k generalizing bs with
  | zero => exact Nat.le_refl _
  | succ k ih =>
    cases bs with
    | nil => exact Nat.zero_le _
    | cons b bs =>
      unfold lineOf
      split_ifs
      · exact Nat.succ_le_succ (Nat.zero_le _)
      · exact Nat.succ_le_succ (ih bs)

/-! ### A stream that arrives -/

/-- A socket that has brought `received` of the stream that `rx₀` delivers and will bring `rest`
before it is closed; its reads wait for what has not arrived yet. -/
structure Arriving (rx₀ : List RxItem) (received rest : List Byte) (s : Script) : Prop where
  partway : Partway rx₀ (received ++ rest) received s.rx
  blocking : .eagain ∉ s.rx

/-- The last read has taken the last of what was received. -/
def Behind (rx₀ : List RxItem) (received : List Byte) (s : Script) : Prop :=
  afterBytes received.length rx₀ = s.rx

/-- A read brings no item into the input that stands for no bytes. -/
theorem eagain_notMem_read {s : Script} (h : .eagain ∉ s.rx) (n : Nat) :
    .eagain ∉ (s.read n).2.rx := by
  unfold Script.read
  cases hrx : s.rx with
  | nil =>
    rw [hrx] at h
    simp only [hrx]
    exact h
  | cons x rx =>
    rw [hrx, List.mem_cons, not_or] at h
    cases x with
    | data b bs =>
      simp only
      cases (b :: bs).drop n with
      | nil => exact h.2
      | cons c cs =>
        rw [pushBack, List.mem_cons, not_or]
        exact ⟨by simp, h.2⟩
    | eof =>
      rw [hrx, List.mem_cons, not_or]
      exact h
    | eagain => exact h.2
    | eintr => exact h.2
    | err => exact h.2

section Arriving

variable {rx₀ : List RxItem} {received rest bs : List Byte} {s s' : Script} {n count size : Nat}

theorem Arriving.start {bytes : List Byte} (h : Delivers s.rx bytes) (hblock : .eagain ∉ s.rx) :
    Arriving s.rx [] bytes s := ⟨.start h, hblock⟩

theorem Arriving.waits (h : Arriving rx₀ received rest s) (hw : Waits s s') :
    Arriving rx₀ received rest s' := by
  induction hw with
  | refl => exact h
  | eintr _ hr ih => exact ⟨ih.partway.read_idle (.inr hr), eagain_notMem_read ih.blocking _⟩

theorem Arriving.read (h : Arriving rx₀ received rest s) (hn : 0 < n)
    (hr : (s.read n).1 = .bytes bs) :
    ∃ rest', rest = bs ++ rest' ∧ Arriving rx₀ (received ++ bs) rest' (s.read n).2 ∧
      Behind rx₀ (received ++ bs) (s.read n).2 := by
  obtain ⟨hpart, hbehind⟩ := h.partway.read_bytes hn hr
  obtain ⟨rest', -, hbytes⟩ := hpart.rest
  rw [List.append_assoc] at hbytes
  obtain rfl := List.append_cancel_left hbytes
  refine ⟨rest', rfl, ⟨?_, eagain_notMem_read h.blocking n⟩, hbehind⟩
  rw [List.append_assoc]
  exact hpart

theorem Arriving.took (h : Arriving rx₀ received rest s) (ht : Took s bs s') :
    ∃ rest', rest = bs ++ rest' ∧ Arriving rx₀ (received ++ bs) rest' s' ∧
      (Behind rx₀ received s → Behind rx₀ (received ++ bs) s') := by
  induction ht with
  | refl =>
    rw [List.append_nil]
    exact ⟨rest, rfl, h, id⟩
  | bytes _ hw hn _ hr ih =>
    obtain ⟨rest', rfl, ih, -⟩ := ih
    obtain ⟨rest'', rfl, h', hbehind⟩ := (ih.waits hw).read hn hr
    rw [List.append_assoc] at h' hbehind
    exact ⟨rest'', (List.append_assoc ..).symm, h', fun _ => hbehind⟩

/-- At the end of the stream everything is received, and the end stays where it is. -/
theorem Arriving.atEnd (h : Arriving rx₀ received rest s) (hn : 0 < n) (hr : (s.read n).1.AtEnd) :
    rest = [] ∧ (s.read n).2 = s := by
  have hended : received ++ rest = received :=
    h.partway.read_ended hn (hr.elim (fun h => .inr (.inl h)) fun h => .inr (.inr h))
  refine ⟨List.append_right_eq_self.mp hended, ?_⟩
  rcases hr with hr | hr
  · unfold Script.read at hr ⊢
    split at hr <;> first | rfl | cases hr
  · obtain ⟨_, hdelivers, -⟩ := h.partway.rest
    exact absurd rfl (hdelivers.read_bytes hn hr).1

theorem Arriving.not_failed (h : Arriving rx₀ received rest s) : ¬ (s.read n).1.Failed := by
  obtain ⟨rest', hdelivers, -⟩ := h.partway.rest
  have hblock := h.blocking
  unfold Script.read
  generalize s.rx = rx at hdelivers hblock
  cases hdelivers with
  | eof => rintro (h | h) <;> cases h
  | data => rintro (h | h) <;> cases h
  | eagain => exact absurd (List.mem_cons_self ..) hblock
  | eintr => rintro (h | h) <;> cases h

/-- **`read_all_from_socket`** on a stream. -/
theorem Arriving.readAll (h : Arriving rx₀ received rest s) (count : Nat) :
    (readAllFromSocket s count).buffer = rest.take count ∧
      (readAllFromSocket s count).result = (rest.take count).length ∧
      Arriving rx₀ (received ++ rest.take count) (rest.drop count)
        (readAllFromSocket s count).script ∧
      (count ≤ rest.length → Behind rx₀ received s →
        Behind rx₀ (received ++ rest.take count) (readAllFromSocket s count).script) := by
  have hend := readAll_end s count
  generalize readAllFromSocket s count = r at hend ⊢
  cases hend with
  | full ht hlen hresult =>
    obtain ⟨rest', rfl, h', hbehind⟩ := h.took ht
    rw [List.take_left' hlen, List.drop_left' hlen]
    exact ⟨rfl, hresult.trans (congrArg Int.ofNat hlen.symm), h', fun _ => hbehind⟩
  | ended ht hw hn hr hscript hlen hresult =>
    obtain ⟨rest', rfl, h', -⟩ := h.took ht
    obtain ⟨rfl, hstay⟩ := (h'.waits hw).atEnd hn hr
    rw [hscript, hstay, List.append_nil, List.take_of_length_le hlen.le,
      List.drop_of_length_le hlen.le]
    exact ⟨rfl, hresult, h'.waits hw, fun hle => absurd hle (Nat.not_le_of_lt hlen)⟩
  | failed ht hw hr =>
    obtain ⟨rest', rfl, h', -⟩ := h.took ht
    exact absurd hr (h'.waits hw).not_failed

/-- **`read_line_from_socket`** on a stream. -/
theorem Arriving.readLine (h : Arriving rx₀ received rest s) (hsize : 2 ≤ size) :
    (readLineFromSocket s size).buffer
        = (if lineOf (size - 1) rest = [] then [] else lineOf (size - 1) rest ++ [0]) ∧
      (readLineFromSocket s size).result = (lineOf (size - 1) rest).length ∧
      ∃ rest', rest = lineOf (size - 1) rest ++ rest' ∧
        Arriving rx₀ (received ++ lineOf (size - 1) rest) rest'
          (readLineFromSocket s size).script ∧
        (newline ∈ lineOf (size - 1) rest → Behind rx₀ received s →
          Behind rx₀ (received ++ lineOf (size - 1) rest) (readLineFromSocket s size).script) := by
  have hend := readLine_end s size
  generalize readLineFromSocket s size = r at hend ⊢
  cases hend with
  | line ht hu hline hlen hbuffer hresult =>
    obtain ⟨rest', rfl, h', hbehind⟩ := h.took ht
    rw [lineOf_append hu hline hlen]
    refine ⟨hbuffer.trans (if_neg ?_).symm, hresult, rest', rfl, h', fun _ => hbehind⟩
    -- an empty line is not full and has no newline
    rintro rfl
    rcases hline with hfull | hnl
    · rw [List.length_nil] at hfull
      omega
    · cases hnl
  | ended ht hw hr hscript hu hlen hbuffer hresult =>
    obtain ⟨rest', rfl, h', -⟩ := h.took ht
    obtain ⟨rfl, hstay⟩ := (h'.waits hw).atEnd Nat.one_pos hr
    rw [List.append_nil, lineOf_of_not_mem hu hlen.le, hscript, hstay]
    exact ⟨hbuffer, hresult, [], (List.append_nil _).symm, h'.waits hw, fun hmem => absurd hmem hu⟩
  | failed ht hw hr =>
    obtain ⟨rest', rfl, h', -⟩ := h.took ht
    exact absurd hr (h'.waits hw).not_failed

end Arriving

/-! ### Writes -/

section Writes

variable {count total : Nat} {items : List SendItem}

/-- The writes are those of the loop of `write_all_to_socket`. -/
theorem writeAll_writes (count total : Nat) (items : List SendItem) :
    (writeAll count total items).writes = writeAllFrom count total items := by
  induction items generalizing total with
  | nil =>
    unfold writeAll writeAllFrom
    split_ifs <;> rfl
  | cons x items ih =>
    unfold writeAll writeAllFrom
    split_ifs
    · cases x with
      | took n => exact congrArg _ (ih _)
      | eintr => exact congrArg _ (ih _)
      | err => rfl
    · rfl

theorem writeAll_left_subset (count total : Nat) (items : List SendItem) :
    (writeAll count total items).left ⊆ items := by
  induction items generalizing total with
  | nil =>
    unfold writeAll
    split_ifs <;> exact List.Subset.refl _
  | cons x items ih =>
    unfold writeAll
    split_ifs
    · cases x with
      | took n => exact fun y hy => List.mem_cons_of_mem _ (ih _ hy)
      | eintr => exact fun y hy => List.mem_cons_of_mem _ (ih _ hy)
      | err => exact List.subset_cons_self ..
    · exact List.Subset.refl _

/-- Where each write moves a byte, fails or is interrupted, there are no more writes than bytes and
interrupts. -/
theorem length_writeAll_writes (h : .took 0 ∉ items) (total : Nat) :
    (writeAll count total items).writes.length ≤ count - total + items.count .eintr := by
  induction items generalizing total with
  | nil =>
    unfold writeAll
    split_ifs with hlt
    · rw [List.length_singleton]
      omega
    · exact Nat.zero_le _
  | cons x items ih =>
    rw [List.mem_cons, not_or] at h
    unfold writeAll
    split_ifs with hlt
    · cases x with
      | took n =>
        have hn : n ≠ 0 := fun hn => h.1 (by rw [hn])
        have hle := ih h.2 (total + min n (count - total))
        rw [List.count_cons_of_ne (by simp)]
        simp only [Emission.after, List.length_cons]
        omega
      | eintr =>
        have hle := ih h.2 total
        rw [List.count_cons_self]
        simp only [Emission.after, List.length_cons]
        omega
      | err =>
        rw [List.length_singleton]
        omega
    · exact Nat.zero_le _

/-- The writes took the whole range and their count is returned, or less and a failure is. -/
theorem writeAll_end (mem : Nat → Byte) (items : List SendItem) (h : total ≤ count) :
    ((writeAll count total items).result = count ∧
      takenFrom mem (writeAll count total items).writes = bytesAt mem total (count - total)) ∨
    ((writeAll count total items).result = -1 ∧ .err ∈ items ∧ ∃ k, k < count - total ∧
      takenFrom mem (writeAll count total items).writes = bytesAt mem total k) := by
  induction items generalizing total with
  | nil =>
    unfold writeAll
    split_ifs with hlt
    · exact .inl ⟨rfl, List.append_nil _⟩
    · obtain rfl := Nat.le_antisymm h (Nat.le_of_not_lt hlt)
      rw [Nat.sub_self]
      exact .inl ⟨rfl, rfl⟩
  | cons x items ih =>
    unfold writeAll
    split_ifs with hlt
    · cases x with
      | took n =>
        -- what this write takes stands in front of what the others take
        have hsplit : ∀ k, bytesAt mem total (min n (count - total) + k)
            = bytesAt mem total (min n (count - total)) ++
              bytesAt mem (total + min n (count - total)) k := bytesAt_add mem total _
        have htaken : ∀ x : Emission, takenFrom mem
            (x.after ⟨total, count - total, min n (count - total)⟩).writes
            = bytesAt mem total (min n (count - total)) ++ takenFrom mem x.writes := fun _ => rfl
        have hnext : total + min n (count - total) ≤ count := by omega
        rcases ih hnext with ⟨hresult, htook⟩ | ⟨hresult, herr, k, hk, htook⟩
        · refine .inl ⟨hresult, ?_⟩
          rw [htaken, htook, ← hsplit]
          congr 1
          omega
        · refine .inr ⟨hresult, List.mem_cons_of_mem _ herr, min n (count - total) + k,
            by omega, ?_⟩
          rw [htaken, htook, hsplit]
      | eintr =>
        have htaken : ∀ x : Emission, takenFrom mem (x.after ⟨total, count - total, 0⟩).writes
            = takenFrom mem x.writes := fun _ => rfl
        rw [htaken]
        exact (ih h).imp_right fun ⟨hresult, herr, htook⟩ =>
          ⟨hresult, List.mem_cons_of_mem _ herr, htook⟩
      | err => exact .inr ⟨rfl, List.mem_cons_self .., 0, by omega, rfl⟩
    · obtain rfl := Nat.le_antisymm h (Nat.le_of_not_lt hlt)
      rw [Nat.sub_self]
      exact .inl ⟨rfl, rfl⟩

theorem bytesAt_memoryOf (bytes : List Byte) : bytesAt (memoryOf bytes) 0 bytes.length = bytes := by
  refine List.ext_getElem (length_bytesAt ..) fun i h h' => ?_
  simp [bytesAt, memoryOf, List.getD_eq_getElem?_getD, h']

/-- **`write_all_to_socket`**, for a whole buffer. -/
theorem writeAll_taken (bytes : List Byte) (items : List SendItem) :
    ((writeAll bytes.length 0 items).result = bytes.length ∧
      (writeAll bytes.length 0 items).taken bytes = bytes) ∨
    ((writeAll bytes.length 0 items).result = -1 ∧ .err ∈ items ∧
      (writeAll bytes.length 0 items).taken bytes <+: bytes ∧
      (writeAll bytes.length 0 items).taken bytes ≠ bytes) := by
  refine (writeAll_end (memoryOf bytes) items (Nat.zero_le bytes.length)).imp
    (fun ⟨hresult, htook⟩ => ⟨hresult, htook.trans (bytesAt_memoryOf bytes)⟩)
    fun ⟨hresult, herr, k, hk, htook⟩ => ⟨hresult, herr, ?_, fun hall => ?_⟩
  · rw [Emission.taken, htook]
    conv_rhs => rw [← bytesAt_memoryOf bytes]
    exact bytesAt_isPrefix _ hk.le 0
  · rw [Emission.taken, htook] at hall
    have hlen := congrArg List.length hall
    rw [length_bytesAt] at hlen
    omega

end Writes

end FileServer
