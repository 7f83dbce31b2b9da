/-
  Correctness of the vector and the dictionary.

  The contents of a vector behave as a list under append and erase-at-index
  (`contents_vectorPushBack`, `contents_vectorErase`); shifting by `memmove` is
  `List.eraseIdx` (`map_moveCells`).  A dictionary with distinct keys behaves as a
  finite map (`dictionaryGet_dictionarySet`, `dictionaryGet_dictionaryRemove`), and
  keeps its keys distinct.
-/
import FileServer.Collections
import Mathlib.Data.List.Basic
import Mathlib.Data.List.InsertIdx
import Mathlib.Data.List.Nodup

namespace FileServer

universe u

variable {α β : Type u}

/-! ### Arrays -/

/-- Shifting the cells behind index `i` down by one erases cell `i`. -/
theorem map_moveCells (cells : Nat → β) {n i : Nat} (hi : i < n) :
    (List.range (n - 1)).map (moveCells cells i (i + 1) (n - i - 1))
      = ((List.range n).map cells).eraseIdx i := by
  apply List.ext_getElem?
  intro j
  rw [List.getElem?_eraseIdx, List.getElem?_map, List.getElem?_map, List.getElem?_map]
  by_cases hji : j < i
  · rw [if_pos hji, List.getElem?_range (by omega), List.getElem?_range (by omega)]
    simp only [Option.map_some, moveCells, Option.some.injEq]
    rw [if_neg (by omega)]
  · rw [if_neg hji]
    by_cases hjn : j < n - 1
    · rw [List.getElem?_range hjn, List.getElem?_range (by omega)]
      simp only [Option.map_some, moveCells, Option.some.injEq]
      rw [if_pos (by omega), show i + 1 + (j - i) = j + 1 by omega]
    · rw [List.getElem?_eq_none (by simpa using hjn), List.getElem?_eq_none (by simp; omega)]
      rfl

theorem moveCells_zero (cells : Nat → β) (dst src : Nat) : moveCells cells dst src 0 = cells := by
  funext i
  exact if_neg (by omega)

/-- The guard around `memmove` only skips a move of no cells. -/
theorem ite_moveCells (cells : Nat → β) {n i : Nat} (hi : i < n) :
    (if i + 1 < n then moveCells cells i (i + 1) (n - i - 1) else cells)
      = moveCells cells i (i + 1) (n - i - 1) := by
  split_ifs with h
  · rfl
  · rw [show n - i - 1 = 0 by omega, moveCells_zero]

theorem map_range_update (cells : Nat → β) (n : Nat) (x : β) :
    (List.range (n + 1)).map (Function.update cells n x) = (List.range n).map cells ++ [x] := by
  rw [List.range_succ, List.map_append, List.map_singleton, Function.update_self]
  congr 1
  apply List.map_congr_left
  intro j hj
  exact Function.update_of_ne (by have := List.mem_range.mp hj; omega) _ _

/-- Overwriting a cell of an array. -/
theorem map_range_update_set (cells : Nat → β) (n i : Nat) (x : β) :
    (List.range n).map (Function.update cells i x) = ((List.range n).map cells).set i x := by
  refine List.ext_getElem (by simp) fun j hj hj' => ?_
  rw [List.getElem_set, List.getElem_map, List.getElem_range]
  split_ifs with hij
  · rw [← hij, Function.update_self]
  · rw [List.getElem_map, List.getElem_range, Function.update_of_ne (Ne.symm hij)]

/-! ### Vector -/

theorem contents_eq_map_data (v : FssVector α) : v.contents = (List.range v.size).map v.data := by
  apply List.map_congr_left
  intro i hi
  exact if_neg (by have := List.mem_range.mp hi; omega)

@[simp] theorem length_contents (v : FssVector α) : v.contents.length = v.size := by
  simp [FssVector.contents]

/-- `vector_push_back` appends, unless it has to grow and cannot. -/
theorem contents_vectorPushBack (v : FssVector α) (x : Option α) (grow : Bool) :
    (vectorPushBack v x grow).contents
      = if v.full = true ∧ grow = false then v.contents else v.contents ++ [x] := by
  unfold vectorPushBack
  simp only [contents_eq_map_data]
  cases hf : v.full <;> cases grow <;> simp [map_range_update]

/-- `vector_erase` erases at an index. -/
theorem contents_vectorErase (v : FssVector α) (i : Nat) :
    (vectorErase v i).contents = v.contents.eraseIdx i := by
  unfold vectorErase
  by_cases h : i ≥ v.size
  · rw [if_pos h, List.eraseIdx_of_length_le (by rw [length_contents]; omega)]
  · rw [if_neg h]
    simp only [contents_eq_map_data]
    rw [ite_moveCells _ (by omega), map_moveCells _ (by omega)]

@[simp] theorem contents_vectorCreate (d : Bool) :
    (vectorCreate d : FssVector α).contents = [] := rfl

/-! ### Dictionary -/

namespace FssDictionary

/-- The keys in order. -/
def keys (d : FssDictionary α) : List Int := d.contents.map DictionaryEntry.key

end FssDictionary

@[simp] theorem length_dictionary_contents (d : FssDictionary α) : d.contents.length = d.size := by
  simp [FssDictionary.contents]

/-- The search stops at the first entry with the key. -/
theorem findKey_eq_some {entries : Nat → DictionaryEntry α} {key : Int} :
    ∀ {n i j : Nat}, findKey entries key n i = some j →
      i ≤ j ∧ j < i + n ∧ (entries j).key = key := by
  intro n
  induction n with
  | zero => intro i j h; simp [findKey] at h
  | succ n ih =>
    intro i j h
    rw [findKey] at h
    split_ifs at h with hk
    · obtain rfl := Option.some.inj h
      exact ⟨Nat.le_refl _, by omega, hk⟩
    · obtain ⟨h1, h2, h3⟩ := ih h
      exact ⟨by omega, by omega, h3⟩

theorem findKey_eq_none {entries : Nat → DictionaryEntry α} {key : Int} :
    ∀ {n i : Nat}, findKey entries key n i = none →
      ∀ j, i ≤ j → j < i + n → (entries j).key ≠ key := by
  intro n
  induction n with
  | zero => intro i _ j hj hj'; omega
  | succ n ih =>
    intro i h j hj hj'
    rw [findKey] at h
    split_ifs at h with hk
    rcases Nat.eq_or_lt_of_le hj with rfl | hlt
    · exact hk
    · exact ih h j hlt (by omega)

theorem find_eq_some {d : FssDictionary α} {key : Int} {i : Nat} (h : d.find key = some i) :
    i < d.size ∧ (d.entries i).key = key := by
  obtain ⟨-, h2, h3⟩ := findKey_eq_some h
  exact ⟨by omega, h3⟩

theorem find_eq_none {d : FssDictionary α} {key : Int} :
    d.find key = none ↔ key ∉ d.keys := by
  constructor
  · intro h hmem
    obtain ⟨e, he, rfl⟩ := List.mem_map.mp hmem
    obtain ⟨i, hi, rfl⟩ := List.mem_map.mp he
    have := List.mem_range.mp hi
    exact findKey_eq_none h i (by omega) (by omega) rfl
  · intro h
    cases hf : d.find key with
    | none => rfl
    | some i =>
      obtain ⟨hi, hk⟩ := find_eq_some hf
      exact absurd (List.mem_map.mpr ⟨_, List.mem_map.mpr ⟨i, List.mem_range.mpr hi, rfl⟩, hk⟩) h

/-- With distinct keys there is one entry for a key: the search finds it. -/
theorem dictionaryGet_eq_of_mem {d : FssDictionary α} (hd : d.keys.Nodup) {key : Int}
    {v : Option α} (h : ⟨key, v⟩ ∈ d.contents) : dictionaryGet d key = v := by
  obtain ⟨i, hi, hv⟩ := List.mem_map.mp h
  have hi := List.mem_range.mp hi
  unfold dictionaryGet
  cases hf : d.find key with
  | none => exact absurd (List.mem_map.mpr ⟨_, h, rfl⟩) (find_eq_none.mp hf)
  | some j =>
    obtain ⟨hj, hk⟩ := find_eq_some hf
    have hij : i = j := by
      refine (@List.Nodup.getElem_inj_iff _ _ hd _ (by simpa [FssDictionary.keys] using hi) _
        (by simpa [FssDictionary.keys] using hj)).mp ?_
      simp only [FssDictionary.keys, FssDictionary.contents, List.map_map, List.getElem_map,
        List.getElem_range, Function.comp]
      rw [hv, hk]
    subst hij
    simp only [hv]

theorem dictionaryGet_eq_none {d : FssDictionary α} {key : Int} (h : key ∉ d.keys) :
    dictionaryGet d key = none := by
  unfold dictionaryGet
  rw [find_eq_none.mpr h]

theorem mem_of_dictionaryGet {d : FssDictionary α} {key : Int} {x : α}
    (h : dictionaryGet d key = some x) : ⟨key, some x⟩ ∈ d.contents := by
  unfold dictionaryGet at h
  cases hf : d.find key with
  | none => rw [hf] at h; cases h
  | some i =>
    obtain ⟨hi, hk⟩ := find_eq_some hf
    rw [hf] at h
    refine List.mem_map.mpr ⟨i, List.mem_range.mpr hi, ?_⟩
    rw [← hk, ← h]

/-- `dictionary_set` of a new key appends an entry, unless it has to grow and cannot. -/
theorem contents_dictionarySet_new {d : FssDictionary α} {key : Int} (h : key ∉ d.keys)
    (v : Option α) (grow : Bool) :
    (dictionarySet d key v grow).contents
      = if d.full = true ∧ grow = false then d.contents else d.contents ++ [⟨key, v⟩] := by
  unfold dictionarySet
  rw [find_eq_none.mpr h]
  simp only [FssDictionary.contents]
  cases hf : d.full <;> cases grow <;> simp [map_range_update]

/-- `dictionary_set` of a key that is there replaces its value in place. -/
theorem contents_dictionarySet_old {d : FssDictionary α} {key : Int} {i : Nat}
    (h : d.find key = some i) (v : Option α) (grow : Bool) :
    (dictionarySet d key v grow).contents = d.contents.set i ⟨key, v⟩ := by
  obtain ⟨-, hk⟩ := find_eq_some h
  unfold dictionarySet
  rw [h]
  simp only [FssDictionary.contents, hk]
  exact map_range_update_set _ _ _ _

/-- A set that has to grow and cannot. -/
def FssDictionary.SetFails (d : FssDictionary α) (key : Int) (grow : Bool) : Prop :=
  key ∉ d.keys ∧ d.full = true ∧ grow = false

instance (d : FssDictionary α) (key : Int) (grow : Bool) : Decidable (d.SetFails key grow) :=
  inferInstanceAs (Decidable (_ ∧ _ ∧ _))

theorem dictionarySet_fails {d : FssDictionary α} {key : Int} {grow : Bool}
    (h : d.SetFails key grow) (v : Option α) : dictionarySet d key v grow = d := by
  obtain ⟨hk, hf, rfl⟩ := h
  unfold dictionarySet
  rw [find_eq_none.mpr hk]
  simp only [hf, if_true, Bool.false_eq_true, if_false]

/-- The entries of the other keys, in their order. -/
def FssDictionary.others (d : FssDictionary α) (key : Int) : List (DictionaryEntry α) :=
  d.contents.filter fun e => e.key ≠ key

theorem find_split {d : FssDictionary α} {key : Int} {i : Nat} (h : d.find key = some i) :
    ∃ e, e.key = key ∧ d.contents = d.contents.take i ++ e :: d.contents.drop (i + 1) := by
  obtain ⟨hi, hk⟩ := find_eq_some h
  have hlen : i < d.contents.length := by simpa using hi
  refine ⟨d.contents[i], ?_, ?_⟩
  · simp only [FssDictionary.contents, List.getElem_map, List.getElem_range, hk]
  · rw [List.getElem_cons_drop, List.take_append_drop]

theorem others_dictionarySet (d : FssDictionary α) (key : Int) (v : Option α) (grow : Bool) :
    (dictionarySet d key v grow).others key = d.others key := by
  unfold FssDictionary.others
  cases hf : d.find key with
  | none =>
    rw [contents_dictionarySet_new (find_eq_none.mp hf)]
    split_ifs
    · rfl
    · rw [List.filter_append, List.filter_cons_of_neg (by simp), List.filter_nil, List.append_nil]
  | some i =>
    have hi : i < d.contents.length := by simpa using (find_eq_some hf).1
    obtain ⟨e, he, hsplit⟩ := find_split hf
    rw [contents_dictionarySet_old hf, List.set_eq_take_append_cons_drop, if_pos hi,
      List.filter_append, List.filter_cons_of_neg (by simp)]
    conv_rhs => rw [hsplit, List.filter_append, List.filter_cons_of_neg (by simp [he])]

/-- `dictionary_set` appends a new key, and leaves the keys otherwise. -/
theorem keys_dictionarySet (d : FssDictionary α) (key : Int) (v : Option α) (grow : Bool) :
    (dictionarySet d key v grow).keys =
      if key ∈ d.keys ∨ d.SetFails key grow then d.keys else d.keys ++ [key] := by
  cases hf : d.find key with
  | none =>
    have hk := find_eq_none.mp hf
    unfold FssDictionary.keys at hk ⊢
    rw [contents_dictionarySet_new hk]
    have hiff : (d.full = true ∧ grow = false) ↔ d.SetFails key grow :=
      ⟨fun h => ⟨hk, h⟩, fun h => h.2⟩
    by_cases hfails : d.SetFails key grow
    · rw [if_pos (hiff.mpr hfails), if_pos (.inr hfails)]
    · rw [if_neg (mt hiff.mp hfails), if_neg (not_or.mpr ⟨hk, hfails⟩), List.map_append]
      rfl
  | some i =>
    have hmem : key ∈ d.keys := by
      by_contra hk
      cases hf.symm.trans (find_eq_none.mpr hk)
    obtain ⟨hi, hk⟩ := find_eq_some hf
    rw [if_pos (.inl hmem), FssDictionary.keys, contents_dictionarySet_old hf, List.map_set]
    refine List.ext_getElem (by simp [FssDictionary.keys]) fun j hj hj' => ?_
    rw [List.getElem_set]
    split_ifs with hij
    · subst hij
      simp only [FssDictionary.keys, FssDictionary.contents, List.getElem_map, List.getElem_range,
        hk]
    · rfl

theorem keys_dictionarySet_nodup {d : FssDictionary α} (hd : d.keys.Nodup) (key : Int)
    (v : Option α) (grow : Bool) : (dictionarySet d key v grow).keys.Nodup := by
  rw [keys_dictionarySet]
  split_ifs with h
  · exact hd
  · exact List.concat_eq_append ▸ hd.concat fun hmem => h (.inl hmem)

/-- With distinct keys the entries of a key decide what is found for it. -/
theorem dictionaryGet_congr {d d' : FssDictionary α} (hd : d.keys.Nodup) (hd' : d'.keys.Nodup)
    {k : Int} (h : ∀ v, ⟨k, v⟩ ∈ d'.contents ↔ ⟨k, v⟩ ∈ d.contents) :
    dictionaryGet d' k = dictionaryGet d k := by
  by_cases hmem : k ∈ d.keys
  · obtain ⟨⟨k', v⟩, he, rfl⟩ := List.mem_map.mp hmem
    rw [dictionaryGet_eq_of_mem hd he, dictionaryGet_eq_of_mem hd' ((h v).mpr he)]
  · rw [dictionaryGet_eq_none hmem]
    refine dictionaryGet_eq_none fun hmem' => hmem ?_
    obtain ⟨⟨k', v⟩, he, rfl⟩ := List.mem_map.mp hmem'
    exact List.mem_map.mpr ⟨_, (h v).mp he, rfl⟩

theorem dictionaryGet_of_others {d d' : FssDictionary α} (hd : d.keys.Nodup) (hd' : d'.keys.Nodup)
    {key k : Int} (h : d'.others key = d.others key) (hk : k ≠ key) :
    dictionaryGet d' k = dictionaryGet d k := by
  refine dictionaryGet_congr hd hd' fun v => ?_
  have hmem : ∀ e : FssDictionary α, ⟨k, v⟩ ∈ e.contents ↔ ⟨k, v⟩ ∈ e.others key := fun e => by
    simp [FssDictionary.others, hk]
  rw [hmem, hmem, h]

/-- **`dictionary_set`** sets its own key and no other. -/
theorem dictionaryGet_dictionarySet {d : FssDictionary α} (hd : d.keys.Nodup) (key : Int)
    (v : Option α) (grow : Bool) (k : Int) :
    dictionaryGet (dictionarySet d key v grow) k =
      if k = key ∧ ¬ d.SetFails key grow then v else dictionaryGet d k := by
  have hd' := keys_dictionarySet_nodup hd key v grow
  by_cases hfails : d.SetFails key grow
  · rw [if_neg (fun h => h.2 hfails), dictionarySet_fails hfails]
  by_cases hk : k = key
  · subst hk
    rw [if_pos ⟨rfl, hfails⟩]
    refine dictionaryGet_eq_of_mem hd' ?_
    cases hf : d.find k with
    | none =>
      have hnew := find_eq_none.mp hf
      rw [contents_dictionarySet_new hnew, if_neg fun h => hfails ⟨hnew, h⟩]
      exact List.mem_append_right _ (List.mem_singleton_self _)
    | some i =>
      rw [contents_dictionarySet_old hf]
      exact List.mem_set (by simpa using (find_eq_some hf).1) _
  · rw [if_neg fun h => hk h.1]
    exact dictionaryGet_of_others hd hd' (others_dictionarySet d key v grow) hk

/-- `dictionary_remove` erases the entry of its key. -/
theorem contents_dictionaryRemove (d : FssDictionary α) (key : Int) :
    (dictionaryRemove d key).contents
      = match d.find key with
        | some i => d.contents.eraseIdx i
        | none => d.contents := by
  unfold dictionaryRemove
  cases hf : d.find key with
  | none => rfl
  | some i =>
    obtain ⟨hi, -⟩ := find_eq_some hf
    simp only [FssDictionary.contents]
    rw [ite_moveCells _ hi, map_moveCells _ hi]

/-- What `dictionary_remove` leaves: the entries of the other keys. -/
theorem mem_contents_dictionaryRemove {d : FssDictionary α} (hd : d.keys.Nodup) {key : Int}
    {e : DictionaryEntry α} :
    e ∈ (dictionaryRemove d key).contents ↔ e ∈ d.contents ∧ e.key ≠ key := by
  rw [contents_dictionaryRemove]
  cases hf : d.find key with
  | none =>
    have hk := find_eq_none.mp hf
    simp only [iff_self_and]
    rintro he rfl
    exact hk (List.mem_map.mpr ⟨e, he, rfl⟩)
  | some i =>
    obtain ⟨hi, hk⟩ := find_eq_some hf
    have hlen : i < d.contents.length := by simpa using hi
    simp only
    rw [List.mem_eraseIdx_iff_getElem]
    have hkey : ∀ j (hj : j < d.contents.length), d.contents[j].key = key → j = i := by
      intro j hj hjk
      refine (@List.Nodup.getElem_inj_iff _ _ hd _ (by simpa [FssDictionary.keys] using hj) _
        (by simpa [FssDictionary.keys] using hi)).mp ?_
      simp only [FssDictionary.keys, List.getElem_map, hjk]
      simp only [FssDictionary.contents, List.getElem_map, List.getElem_range, hk]
    constructor
    · rintro ⟨j, hj, hji, rfl⟩
      exact ⟨List.getElem_mem hj, fun h => hji (hkey j hj h)⟩
    · rintro ⟨he, hne⟩
      obtain ⟨j, hj, rfl⟩ := List.getElem_of_mem he
      refine ⟨j, hj, ?_, rfl⟩
      rintro rfl
      exact hne (by simp only [FssDictionary.contents, List.getElem_map, List.getElem_range, hk])

theorem keys_dictionaryRemove_nodup {d : FssDictionary α} (hd : d.keys.Nodup) (key : Int) :
    (dictionaryRemove d key).keys.Nodup := by
  unfold FssDictionary.keys
  rw [contents_dictionaryRemove]
  cases hf : d.find key with
  | none => exact hd
  | some i =>
    simp only
    rw [← List.eraseIdx_map]
    exact hd.sublist (List.eraseIdx_sublist _ _)

theorem others_dictionaryRemove (d : FssDictionary α) (key : Int) :
    (dictionaryRemove d key).others key = d.others key := by
  unfold FssDictionary.others
  rw [contents_dictionaryRemove]
  cases hf : d.find key with
  | none => rfl
  | some i =>
    obtain ⟨e, he, hsplit⟩ := find_split hf
    simp only
    rw [List.eraseIdx_eq_take_drop_succ, List.filter_append]
    conv_rhs => rw [hsplit, List.filter_append, List.filter_cons_of_neg (by simp [he])]

/-- **`dictionary_remove`** removes its own key and no other. -/
theorem dictionaryGet_dictionaryRemove {d : FssDictionary α} (hd : d.keys.Nodup) (key k : Int) :
    dictionaryGet (dictionaryRemove d key) k = if k = key then none else dictionaryGet d k := by
  have hd' := keys_dictionaryRemove_nodup hd key
  split_ifs with hk
  · subst hk
    apply dictionaryGet_eq_none
    rintro hmem
    obtain ⟨e, he, hek⟩ := List.mem_map.mp hmem
    exact ((mem_contents_dictionaryRemove hd).mp he).2 hek
  · exact dictionaryGet_of_others hd hd' (others_dictionaryRemove d key) hk

end FileServer
