/-
  What the containers are for, over any sequence of calls.

  A dictionary is a finite map with insertion order (`dictionary_finite_map`), and a
  vector is a list that owns its elements (`vector_owning_list`).  A call that has to
  grow the array and cannot fails and changes nothing; what the others have done is in
  the history of the calls.
-/
import Mathlib.Data.List.Perm.Basic
import FileServer.Equiv.Collections
import FileServer.Lib.Chain

namespace FileServer

universe u

variable {α : Type u}

/-! ### Dictionary -/

/-- A call on a dictionary; `grow` decides whether its `realloc` succeeds where it is called. -/
inductive DictionaryCall (α : Type u)
  | set (key : Int) (value : Option α) (grow : Bool)
  | get (key : Int)
  | remove (key : Int)

namespace DictionaryCall

/-- What a call leaves. -/
def act (d : FssDictionary α) : DictionaryCall α → FssDictionary α
  | set key value grow => dictionarySet d key value grow
  | get _ => d
  | remove key => dictionaryRemove d key

/-- The call has to grow the array and cannot. -/
def Fails (d : FssDictionary α) : DictionaryCall α → Prop
  | set key _ grow => d.SetFails key grow
  | get _ => False
  | remove _ => False

instance (d : FssDictionary α) (a : DictionaryCall α) : Decidable (Fails d a) := by
  cases a <;> unfold Fails <;> infer_instance

/-- The value that a call has `key` stand for, `NULL` after a removal. -/
def decides (key : Int) : DictionaryCall α → Option (Option α)
  | set k value _ => if k = key then some value else none
  | get _ => none
  | remove k => if k = key then some none else none

end DictionaryCall

/-- A dictionary after some calls on a fresh one. -/
def dictionaryRun (calls : List (DictionaryCall α)) : FssDictionary α :=
  calls.foldl DictionaryCall.act dictionaryCreate

/-- The calls on a fresh dictionary that took effect. -/
def dictionaryHistory (calls : List (DictionaryCall α)) : List (DictionaryCall α) :=
  Chain.history DictionaryCall.act DictionaryCall.Fails dictionaryCreate calls

/-- The value of the last set of a key that no remove of it follows, `NULL` where there is none. -/
def lastValue (calls : List (DictionaryCall α)) (key : Int) : Option α :=
  (calls.reverse.findSome? (DictionaryCall.decides key)).join

/-- A dictionary that some effective calls have led to is a finite map. -/
structure FiniteMap (d : FssDictionary α) (calls : List (DictionaryCall α)) : Prop where
  keys : d.keys.Nodup
  size : d.size ≤ d.capacity
  capacity : 0 < d.capacity
  get : ∀ key, dictionaryGet d key = lastValue calls key
  /-- A set keeps to its key. -/
  set_get : ∀ key value grow k, k ≠ key →
    dictionaryGet (dictionarySet d key value grow) k = dictionaryGet d k
  set_others : ∀ key value grow, (dictionarySet d key value grow).others key = d.others key
  /-- A remove keeps to its key. -/
  remove_get : ∀ key k, k ≠ key → dictionaryGet (dictionaryRemove d key) k = dictionaryGet d k
  remove_others : ∀ key, (dictionaryRemove d key).others key = d.others key
  /-- A set that cannot grow the array changes nothing. -/
  set_fails : ∀ key value grow, d.SetFails key grow → dictionarySet d key value grow = d

section Dictionary

variable {d : FssDictionary α} {calls : List (DictionaryCall α)}

theorem lastValue_concat (calls : List (DictionaryCall α)) (a : DictionaryCall α) (key : Int) :
    lastValue (calls ++ [a]) key =
      ((a.decides key).or (calls.reverse.findSome? (DictionaryCall.decides key))).join := by
  rw [lastValue, List.reverse_concat, List.findSome?_cons]
  cases a.decides key <;> rfl

theorem dictionarySet_size (h : d.size ≤ d.capacity ∧ 0 < d.capacity) (key : Int) (v : Option α)
    (grow : Bool) : (dictionarySet d key v grow).size ≤ (dictionarySet d key v grow).capacity ∧
      0 < (dictionarySet d key v grow).capacity := by
  unfold dictionarySet
  cases d.find key with
  | some i => exact h
  | none =>
    simp only
    by_cases hf : d.full = true
    · have hsize : d.size = d.capacity := by simpa [FssDictionary.full] using hf
      cases grow
      · rw [if_pos hf, if_neg (by simp)]
        exact h
      · rw [if_pos hf, if_pos rfl]
        simp only [growthFactor]
        omega
    · have hsize : d.size ≠ d.capacity := by simpa [FssDictionary.full] using hf
      rw [if_neg hf]
      exact ⟨Nat.lt_of_le_of_ne h.1 hsize, h.2⟩

theorem dictionaryRemove_size (h : d.size ≤ d.capacity ∧ 0 < d.capacity) (key : Int) :
    (dictionaryRemove d key).size ≤ (dictionaryRemove d key).capacity ∧
      0 < (dictionaryRemove d key).capacity := by
  unfold dictionaryRemove
  cases d.find key with
  | some i => exact ⟨Nat.le_trans (Nat.sub_le ..) h.1, h.2⟩
  | none => exact h

/-- With distinct keys the rest is known of one operation. -/
theorem FiniteMap.of_get (hkeys : d.keys.Nodup) (hsize : d.size ≤ d.capacity ∧ 0 < d.capacity)
    (hget : ∀ key, dictionaryGet d key = lastValue calls key) : FiniteMap d calls where
  keys := hkeys
  size := hsize.1
  capacity := hsize.2
  get := hget
  set_get := fun key value grow k hk => by
    rw [dictionaryGet_dictionarySet hkeys, if_neg fun h => hk h.1]
  set_others := others_dictionarySet d
  remove_get := fun key k hk => by rw [dictionaryGet_dictionaryRemove hkeys, if_neg hk]
  remove_others := others_dictionaryRemove d
  set_fails := fun _ value _ h => dictionarySet_fails h value

/-- One effective call. -/
theorem FiniteMap.act (h : FiniteMap d calls) {a : DictionaryCall α} (ha : ¬ a.Fails d) :
    FiniteMap (a.act d) (calls ++ [a]) := by
  cases a with
  | set key value grow =>
    refine .of_get (keys_dictionarySet_nodup h.keys ..)
      (dictionarySet_size ⟨h.size, h.capacity⟩ ..) fun k => ?_
    rw [lastValue_concat]
    change dictionaryGet (dictionarySet d key value grow) k = _
    rw [dictionaryGet_dictionarySet h.keys, DictionaryCall.decides]
    by_cases hk : k = key
    · rw [if_pos ⟨hk, ha⟩, if_pos hk.symm]
      rfl
    · rw [if_neg fun h' => hk h'.1, if_neg (Ne.symm hk), h.get]
      rfl
  | get key =>
    refine .of_get h.keys ⟨h.size, h.capacity⟩ fun k => ?_
    rw [lastValue_concat]
    exact h.get k
  | remove key =>
    refine .of_get (keys_dictionaryRemove_nodup h.keys _) 
      (dictionaryRemove_size ⟨h.size, h.capacity⟩ _) fun k => ?_
    rw [lastValue_concat]
    change dictionaryGet (dictionaryRemove d key) k = _
    rw [dictionaryGet_dictionaryRemove h.keys, DictionaryCall.decides]
    by_cases hk : k = key
    · rw [if_pos hk, if_pos hk.symm]
      rfl
    · rw [if_neg hk, if_neg (Ne.symm hk), h.get]
      rfl

end Dictionary

/-- **The dictionary is a finite map**, whatever is called on it and whichever allocations
fail. -/
theorem dictionary_finite_map (calls : List (DictionaryCall α)) :
    FiniteMap (dictionaryRun calls) (dictionaryHistory calls) := by
  refine Chain.history_rule (I := FiniteMap) (fun d a h => ?_) (fun d hist a h ha => h.act ha)
    ?_ calls
  · cases a with
    | set key value grow => exact dictionarySet_fails h value
    | get key => cases h
    | remove key => cases h
  · exact .of_get List.nodup_nil ⟨Nat.zero_le _, Nat.zero_lt_succ 7⟩ fun key => rfl

/-! ### Vector -/

/-- A call on a vector; `grow` says whether its `realloc` succeeds where it is called. -/
inductive VectorCall (α : Type u)
  | pushBack (element : Option α) (grow : Bool)
  | erase (position : Nat)
  | get (n : Nat)

namespace VectorCall

/-- What a call leaves. -/
def act (v : FssVector α) : VectorCall α → FssVector α
  | pushBack element grow => vectorPushBack v element grow
  | erase position => vectorErase v position
  | get _ => v

/-- The call has to grow the array and cannot, or is out of range. -/
def Fails (v : FssVector α) : VectorCall α → Prop
  | pushBack _ grow => v.full = true ∧ grow = false
  | erase position => v.size ≤ position
  | get n => v.size ≤ n

instance (v : FssVector α) (a : VectorCall α) : Decidable (Fails v a) := by
  cases a <;> unfold Fails <;> infer_instance

/-- What a call makes of a list. -/
def onList (l : List (Option α)) : VectorCall α → List (Option α)
  | pushBack element _ => l ++ [element]
  | erase position => l.eraseIdx position
  | get _ => l

/-- The element that a call stores. -/
def stores : VectorCall α → Option (Option α)
  | pushBack element _ => some element
  | _ => none

end VectorCall

/-- A vector after some calls on a fresh one. -/
def vectorRun (destructor : Bool) (calls : List (VectorCall α)) : FssVector α :=
  calls.foldl VectorCall.act (vectorCreate destructor)

/-- The calls on a fresh vector that took effect. -/
def vectorHistory (destructor : Bool) (calls : List (VectorCall α)) : List (VectorCall α) :=
  Chain.history VectorCall.act VectorCall.Fails (vectorCreate destructor) calls

/-- A vector that some effective calls have led to is a list that owns its elements. -/
structure OwningList (v : FssVector α) (calls : List (VectorCall α)) : Prop where
  size : v.size ≤ v.capacity
  capacity : 0 < v.capacity
  contents : v.contents = calls.foldl VectorCall.onList []
  /-- A call that fails changes nothing. -/
  fails : ∀ a : VectorCall α, a.Fails v → a.act v = v
  get : ∀ n, vectorGet v n = v.contents[n]?.join
  /-- Every element that was stored is stored still or was destroyed, and not both. -/
  owned : v.destructor = true →
    (v.destroyed ++ v.contents).Perm (calls.filterMap VectorCall.stores)
  /-- An erase destroys the element at its position, and nothing else does. -/
  erase_destroys : ∀ i, v.destructor = true →
    (vectorErase v i).destroyed = v.destroyed ++ v.contents[i]?.toList
  push_destroys : ∀ x grow, (vectorPushBack v x grow).destroyed = v.destroyed
  /-- At the end every element that was stored is destroyed, once. -/
  destroy : v.destructor = true →
    (vectorDestroy v).Perm (calls.filterMap VectorCall.stores)
  unowned : v.destructor = false → vectorDestroy v = []

section Vector

variable {v : FssVector α} {calls : List (VectorCall α)}

theorem VectorCall.act_of_fails {a : VectorCall α} (h : a.Fails v) : a.act v = v := by
  cases a with
  | pushBack x grow =>
    obtain ⟨hf, rfl⟩ := h
    exact (if_pos hf).trans (if_neg (by simp))
  | erase i => exact if_pos h
  | get n => rfl

theorem VectorCall.act_destructor (a : VectorCall α) (v : FssVector α) :
    (a.act v).destructor = v.destructor := by
  cases a with
  | pushBack x grow =>
    change (vectorPushBack v x grow).destructor = _
    unfold vectorPushBack
    split_ifs <;> rfl
  | erase i =>
    change (vectorErase v i).destructor = _
    unfold vectorErase
    by_cases hi : i ≥ v.size
    · rw [if_pos hi]
    · rw [if_neg hi]
  | get n => rfl

theorem VectorCall.contents_act {a : VectorCall α} (h : ¬ a.Fails v) :
    (a.act v).contents = a.onList v.contents := by
  cases a with
  | pushBack x grow => exact (contents_vectorPushBack v x grow).trans (if_neg h)
  | erase i => exact contents_vectorErase v i
  | get n => rfl

theorem VectorCall.act_size (h : v.size ≤ v.capacity ∧ 0 < v.capacity) (a : VectorCall α) :
    (a.act v).size ≤ (a.act v).capacity ∧ 0 < (a.act v).capacity := by
  cases a with
  | pushBack x grow =>
    change (vectorPushBack v x grow).size ≤ (vectorPushBack v x grow).capacity ∧
      0 < (vectorPushBack v x grow).capacity
    unfold vectorPushBack
    by_cases hf : v.full = true
    · have hsize : v.size = v.capacity := by simpa [FssVector.full] using hf
      cases grow
      · rw [if_pos hf, if_neg (by simp)]
        exact h
      · rw [if_pos hf, if_pos rfl]
        simp only [growthFactor]
        omega
    · have hsize : v.size ≠ v.capacity := by simpa [FssVector.full] using hf
      rw [if_neg hf]
      exact ⟨Nat.lt_of_le_of_ne h.1 hsize, h.2⟩
  | erase i =>
    change (vectorErase v i).size ≤ (vectorErase v i).capacity ∧ 0 < (vectorErase v i).capacity
    unfold vectorErase
    by_cases hi : i ≥ v.size
    · rw [if_pos hi]
      exact h
    · rw [if_neg hi]
      exact ⟨Nat.le_trans (Nat.sub_le ..) h.1, h.2⟩
  | get n => exact h

theorem getElem?_contents (v : FssVector α) (n : Nat) :
    v.contents[n]? = if n < v.size then some (vectorGet v n) else none := by
  unfold FssVector.contents
  rw [List.getElem?_map]
  split_ifs with h
  · rw [List.getElem?_range h]
    rfl
  · rw [List.getElem?_eq_none (by simpa using h)]
    rfl

theorem vectorGet_eq (v : FssVector α) (n : Nat) : vectorGet v n = v.contents[n]?.join := by
  rw [getElem?_contents]
  split_ifs with h
  · rfl
  · exact if_pos (Nat.le_of_not_lt h)

theorem vectorErase_destroyed (h : v.destructor = true) (i : Nat) :
    (vectorErase v i).destroyed = v.destroyed ++ v.contents[i]?.toList := by
  unfold vectorErase
  rw [getElem?_contents]
  by_cases hi : i < v.size
  · rw [if_neg (Nat.not_le_of_lt hi), if_pos hi, vectorGet, if_neg (Nat.not_le_of_lt hi)]
    exact if_pos h
  · rw [if_pos (Nat.le_of_not_lt hi), if_neg hi]
    exact (List.append_nil _).symm

theorem vectorPushBack_destroyed (v : FssVector α) (x : Option α) (grow : Bool) :
    (vectorPushBack v x grow).destroyed = v.destroyed := by
  unfold vectorPushBack
  split_ifs <;> rfl

theorem vectorDestroy_eq (h : v.destructor = true) :
    vectorDestroy v = v.destroyed ++ v.contents := by
  rw [vectorDestroy, if_pos h, contents_eq_map_data]

/-- What an effective call stores is owned, and nothing is lost. -/
theorem VectorCall.owned (hd : v.destructor = true) {a : VectorCall α} (ha : ¬ a.Fails v)
    {stored : List (Option α)} (h : (v.destroyed ++ v.contents).Perm stored) :
    ((a.act v).destroyed ++ (a.act v).contents).Perm (stored ++ a.stores.toList) := by
  rw [a.contents_act ha]
  cases a with
  | pushBack x grow =>
    change ((vectorPushBack v x grow).destroyed ++ (v.contents ++ [x])).Perm (stored ++ [x])
    rw [vectorPushBack_destroyed, ← List.append_assoc]
    exact h.append_right _
  | erase i =>
    change ((vectorErase v i).destroyed ++ v.contents.eraseIdx i).Perm (stored ++ [])
    have hi : i < v.contents.length := by simpa [Fails] using ha
    rw [vectorErase_destroyed hd, List.append_nil, List.getElem?_eq_getElem hi, Option.toList_some,
      List.append_assoc, List.singleton_append]
    -- the element moves from its place to the front
    exact ((List.getElem_cons_eraseIdx_perm hi).append_left _).trans h
  | get n => exact (List.append_nil stored).symm ▸ h

theorem OwningList.of_owned (hsize : v.size ≤ v.capacity ∧ 0 < v.capacity)
    (hcontents : v.contents = calls.foldl VectorCall.onList [])
    (howned : v.destructor = true →
      (v.destroyed ++ v.contents).Perm (calls.filterMap VectorCall.stores))
    (hnone : v.destructor = false → v.destroyed = []) : OwningList v calls where
  size := hsize.1
  capacity := hsize.2
  contents := hcontents
  fails := fun _ => VectorCall.act_of_fails
  get := vectorGet_eq v
  owned := howned
  erase_destroys := fun i h => vectorErase_destroyed h i
  push_destroys := vectorPushBack_destroyed v
  destroy := fun h => by
    rw [vectorDestroy_eq h]
    exact howned h
  unowned := fun h => by
    rw [vectorDestroy, if_neg (by simp [h])]
    exact hnone h

/-- One effective call. -/
theorem OwningList.act (h : OwningList v calls) {a : VectorCall α} (ha : ¬ a.Fails v) :
    OwningList (a.act v) (calls ++ [a]) := by
  have hstores : (calls ++ [a]).filterMap VectorCall.stores =
      calls.filterMap VectorCall.stores ++ a.stores.toList := by
    rw [List.filterMap_append]
    cases a <;> rfl
  refine .of_owned (a.act_size ⟨h.size, h.capacity⟩) ?_ (fun hd => ?_) fun hd => ?_
  · rw [a.contents_act ha, h.contents, List.foldl_append]
    rfl
  · rw [a.act_destructor] at hd
    rw [hstores]
    exact a.owned hd ha (h.owned hd)
  · rw [a.act_destructor] at hd
    have hnone : v.destroyed = [] := by
      have := h.unowned hd
      rwa [vectorDestroy, if_neg (by simp [hd])] at this
    cases a with
    | pushBack x grow => exact (h.push_destroys x grow).trans hnone
    | erase i =>
      change (vectorErase v i).destroyed = []
      unfold vectorErase
      by_cases hi : i ≥ v.size
      · rw [if_pos hi]
        exact hnone
      · rw [if_neg hi]
        exact (if_neg (by simp [hd])).trans hnone
    | get n => exact hnone

end Vector

/-- **The vector is a list that owns its elements**, whatever is called on it and whichever
allocations fail. -/
theorem vector_owning_list (destructor : Bool) (calls : List (VectorCall α)) :
    OwningList (vectorRun destructor calls) (vectorHistory destructor calls) := by
  refine Chain.history_rule (I := OwningList) (fun _ _ => VectorCall.act_of_fails)
    (fun _ _ _ h ha => h.act ha) ?_ calls
  exact .of_owned ⟨Nat.zero_le _, Nat.zero_lt_succ 7⟩ rfl (fun _ => List.Perm.refl [])
    fun _ => rfl

end FileServer
