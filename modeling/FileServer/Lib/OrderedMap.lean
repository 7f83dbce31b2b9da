/-
  Maps that remember the order in which their keys came.

  A map is the list of its entries.  `put` changes the value of a key that is there in
  its place and adds another one behind the rest; `delete` takes the entries of a key
  out.  What each of them does to the keys and to every lookup is one lemma.
-/
import Mathlib.Data.List.Nodup

/-- Keys and their values, in order. -/
abbrev OrderedMap (α β : Type*) := List (α × β)

namespace OrderedMap

variable {α β : Type*} [DecidableEq α] [BEq α] [LawfulBEq α] {m : OrderedMap α β} {v w : α}
  {x : β}

def keys (m : OrderedMap α β) : List α := m.map Prod.fst

/-- The value of a key. -/
def get (m : OrderedMap α β) (w : α) : Option β := m.lookup w

/-- A key that is there keeps its place, another one comes last. -/
def put (m : OrderedMap α β) (w : α) (x : β) : OrderedMap α β :=
  if w ∈ m.keys then m.map fun e => if e.1 = w then (w, x) else e else m ++ [(w, x)]

def delete (m : OrderedMap α β) (w : α) : OrderedMap α β := m.filter fun e => e.1 ≠ w

/-! ### Keys -/

theorem keys_put : (m.put w x).keys = if w ∈ m.keys then m.keys else m.keys ++ [w] := by
  unfold put
  split_ifs
  · rw [keys, keys, List.map_map]
    refine List.map_congr_left fun e _ => ?_
    by_cases he : e.1 = w
    · simp [he]
    · simp [he]
  · rw [keys, keys, List.map_append]
    rfl

theorem keys_delete (h : m.keys.Nodup) : (m.delete w).keys = m.keys.erase w := by
  rw [h.erase_eq_filter, keys, keys, delete, List.filter_map]
  congr 1
  refine List.filter_congr fun e _ => ?_
  by_cases he : e.1 = w <;> simp [he]

/-! ### Lookups -/

theorem get_cons (e : α × β) :
    get (e :: m) v = if v = e.1 then some e.2 else m.get v := by
  unfold get
  rw [List.lookup_cons]
  split_ifs with h
  · rw [h, beq_self_eq_true]
  · rw [beq_false_of_ne h]

theorem get_eq_none : m.get w = none ↔ w ∉ m.keys := by
  induction m with
  | nil => exact iff_of_true rfl List.not_mem_nil
  | cons e m ih =>
    rw [get_cons, keys, List.map_cons, List.mem_cons, not_or]
    split_ifs with h
    · exact iff_of_false (by simp) fun hne => hne.1 h
    · exact ih.trans (and_iff_right h).symm

/-- A new value reaches the entries of its key only. -/
theorem get_update : get (m.map fun e => if e.1 = w then (w, x) else e) v
    = if v = w then (m.get w).map fun _ => x else m.get v := by
  induction m with
  | nil => exact (ite_self none).symm
  | cons e m ih =>
    rw [List.map_cons, get_cons, ih, get_cons, get_cons]
    by_cases hw : e.1 = w
    · rw [if_pos hw, hw, if_pos rfl]
      split_ifs <;> rfl
    · rw [if_neg hw, if_neg (Ne.symm hw)]
      by_cases hv : v = w
      · rw [if_pos hv, if_pos hv, hv, if_neg (Ne.symm hw)]
      · rw [if_neg hv, if_neg hv]

theorem get_put : (m.put w x).get v = if v = w then some x else m.get v := by
  unfold put
  split_ifs with hmem hv hv
  · obtain ⟨y, hy⟩ := Option.ne_none_iff_exists'.mp (mt get_eq_none.mp (not_not.mpr hmem))
    rw [get_update, if_pos hv, hy]
    rfl
  · rw [get_update, if_neg hv]
  · have hnone : m.lookup v = none := get_eq_none.mpr (hv ▸ hmem)
    rw [get, List.lookup_append, hnone, hv]
    exact (get_cons _).trans (if_pos rfl)
  · have hlast : List.lookup v [(w, x)] = none := (get_cons (w, x)).trans (if_neg hv)
    rw [get, get, List.lookup_append, hlast, Option.or_none]

theorem get_delete : (m.delete w).get v = if v = w then none else m.get v := by
  induction m with
  | nil => exact (ite_self none).symm
  | cons e m ih =>
    unfold delete at ih ⊢
    rw [List.filter_cons, get_cons]
    by_cases hw : e.1 = w
    · rw [if_neg (by simp [hw]), ih, hw]
      by_cases hv : v = w
      · rw [if_pos hv, if_pos hv]
      · rw [if_neg hv, if_neg hv, if_neg hv]
    · rw [if_pos (by simp [hw]), get_cons, ih]
      by_cases hv : v = w
      · rw [hv, if_neg (Ne.symm hw), if_pos rfl, if_pos rfl]
      · rw [if_neg hv, if_neg hv]

end OrderedMap
