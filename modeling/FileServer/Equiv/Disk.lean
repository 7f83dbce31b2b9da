/-
  What the paths of the server denote, and what the file operations change.

  A path of the form `tempName/w` is resolved inside the temporary directory
  (`resolve_temp`); for an entry name `w` it denotes that entry.  Every operation
  changes the slot of its own entry only, and never the tree; what a slot holds
  after an operation is stated for `lookup` and `content`.
-/
import FileServer.Disk
import Mathlib.Data.List.Basic

namespace FileServer

/-! ### Paths -/

theorem components_of_not_mem {w : Path} (h : slash ∉ w) : components w = [w] := by
  induction w with
  | nil => rfl
  | cons b w ih =>
    simp only [List.mem_cons, not_or] at h
    rw [components, if_neg (Ne.symm h.1), ih h.2]

theorem components_append {a : Path} (h : slash ∉ a) (p : Path) :
    components (a ++ slash :: p) = a :: components p := by
  induction a with
  | nil => rw [List.nil_append, components, if_pos rfl]
  | cons b a ih =>
    simp only [List.mem_cons, not_or] at h
    rw [List.cons_append, components, if_neg (Ne.symm h.1), ih h.2]

namespace Tree

variable (t : Tree)

/-- The path of a name in the temporary directory. -/
def path (w : Path) : Path := t.tempName ++ [slash] ++ w

theorem path_injective {v w : Path} (h : t.path v = t.path w) : v = w := List.append_cancel_left h

/-- The paths of the server are resolved in the temporary directory. -/
theorem resolve_temp (w : Path) : t.resolve (t.path w) = t.walk t.temp (components w) := by
  obtain ⟨hnil, hslash, hdot, hdots⟩ := t.tempName_entry
  rw [resolve, path, List.append_assoc, List.singleton_append, components_append hslash, walk,
    if_neg (by simp [hnil, hdot]), if_neg hdots]
  simp only [t.sub_cwd]

/-- **An entry name denotes the entry of that name.** -/
theorem resolve_entryName {w : Path} (h : EntryName w) :
    t.resolve (t.path w) = .entry (t.temp, w) := by
  obtain ⟨hnil, hslash, hdot, hdots⟩ := h
  rw [resolve_temp, components_of_not_mem hslash, walk, if_neg (by simp [hnil, hdot]),
    if_neg hdots]
  simp only [t.sub_temp]
  rfl

/-- A name without separators that is no entry name denotes a directory. -/
theorem resolve_not_entryName {w : Path} (hslash : slash ∉ w) (h : ¬ EntryName w) :
    ∃ d, t.resolve (t.path w) = .dir d := by
  rw [resolve_temp, components_of_not_mem hslash, walk]
  by_cases h1 : w = [] ∨ w = [dot]
  · exact ⟨t.temp, by rw [if_pos h1, walk]⟩
  · by_cases h2 : w = [dot, dot]
    · exact ⟨t.parent t.temp, by rw [if_neg h1, if_pos h2, walk]⟩
    · simp only [not_or] at h1
      exact absurd ⟨h1.1, hslash, h1.2, h2⟩ h

end Tree

/-! ### Slots -/

namespace Slot

variable (s : Slot) (gen : Nat) (bs : List Byte)

@[simp] theorem write_link : (s.write gen bs).link = s.link := rfl
@[simp] theorem length_write_files : (s.write gen bs).files.length = s.files.length :=
  List.length_set ..
@[simp] theorem create_link : s.create.link = some s.files.length := rfl
@[simp] theorem remove_link : s.remove.link = none := rfl
@[simp] theorem remove_files : s.remove.files = s.files := rfl

end Slot

/-! ### Operations -/

namespace Disk

variable (k : Disk)

@[simp] theorem setSlot_tree (l : Loc) (s : Slot) : (k.setSlot l s).tree = k.tree := rfl

@[simp] theorem setSlot_slot_self (l : Loc) (s : Slot) : (k.setSlot l s).slot l = s :=
  Function.update_self ..

theorem setSlot_slot_of_ne {l m : Loc} (s : Slot) (h : m ≠ l) :
    (k.setSlot l s).slot m = k.slot m := Function.update_of_ne h ..

theorem lookup_eq_some {l : Loc} {bs : List Byte} :
    k.lookup l = some bs ↔ ∃ gen, (k.slot l).link = some gen ∧ k.content l gen = bs :=
  Option.map_eq_some_iff

theorem lookup_eq_none {l : Loc} : k.lookup l = none ↔ (k.slot l).link = none :=
  Option.map_eq_none_iff

theorem lookup_of_link {l : Loc} {gen : Nat} (h : (k.slot l).link = some gen) :
    k.lookup l = some (k.content l gen) := by rw [lookup, h]; rfl

/-- What is stored at an entry decides what is found there. -/
theorem content_congr {k k' : Disk} {l : Loc} (h : k'.slot l = k.slot l) (gen : Nat) :
    k'.content l gen = k.content l gen := by simp only [content, h]

theorem lookup_congr {k k' : Disk} {l : Loc} (h : k'.slot l = k.slot l) :
    k'.lookup l = k.lookup l := by
  have hc : k'.content l = k.content l := funext (content_congr h)
  rw [lookup, lookup, h, hc]

theorem read_entry {p : Path} {l : Loc} (h : k.tree.resolve p = .entry l) :
    k.read p = k.lookup l := by simp only [read, h]

/-- The contents after one generation was replaced. -/
theorem content_setContent (l : Loc) (gen gen' : Nat) (bs : List Byte)
    (h : gen < (k.slot l).files.length) :
    (k.setContent l gen bs).content l gen' = if gen' = gen then bs else k.content l gen' := by
  simp only [content, setContent, setSlot_slot_self, Slot.write, List.getD_eq_getElem?_getD,
    List.getElem?_set]
  by_cases hg : gen' = gen
  · rw [if_pos hg, if_pos hg.symm, if_pos h]; rfl
  · rw [if_neg hg, if_neg (Ne.symm hg)]

theorem content_create (l : Loc) (gen : Nat) :
    (k.setSlot l (k.slot l).create).content l gen = k.content l gen := by
  simp only [content, setSlot_slot_self, Slot.create, List.getD_eq_getElem?_getD]
  rcases Nat.lt_trichotomy gen (k.slot l).files.length with h | h | h
  · rw [List.getElem?_append_left h]
  · subst h; simp
  · rw [List.getElem?_append_right h.le, List.getElem?_eq_none h.le]
    rw [List.getElem?_eq_none (by simp only [List.length_singleton]; omega)]

/-! #### `open` for writing -/

@[simp] theorem openWrite_tree (p : Path) : (k.openWrite p).2.tree = k.tree := by
  unfold openWrite
  split
  · split <;> rfl
  · rfl

/-- `open` changes no entry but the one its path denotes. -/
theorem openWrite_slot_of_ne {p : Path} {l : Loc} (h : k.tree.resolve p ≠ .entry l) :
    (k.openWrite p).2.slot l = k.slot l := by
  unfold openWrite
  split
  · rename_i m hm
    have hne : l ≠ m := fun hlm => h (by rw [hm, hlm])
    split
    · exact setSlot_slot_of_ne k _ hne
    · exact setSlot_slot_of_ne k _ hne
  · rfl

/-- **`open` for writing** on a path that denotes an entry gives a handle on the file that the
entry then links to; that file is empty, and the other files keep their contents. -/
theorem openWrite_entry {p : Path} {l : Loc} (h : k.tree.resolve p = .entry l) :
    ∃ gen, (k.openWrite p).1 = some (.file l gen) ∧ ((k.openWrite p).2.slot l).link = some gen ∧
      (k.openWrite p).2.content l gen = [] ∧
      (∀ g, g ≠ gen → (k.openWrite p).2.content l g = k.content l g) ∧
      (k.slot l).files.length ≤ ((k.openWrite p).2.slot l).files.length ∧
      ((k.slot l).link = some gen ∨ (k.slot l).link = none ∧ gen = (k.slot l).files.length) := by
  unfold openWrite
  simp only [h]
  cases hl : (k.slot l).link with
  | some gen =>
    have hlt := (k.slot l).link_lt gen hl
    refine ⟨gen, rfl, ?_, ?_, ?_, ?_, .inl rfl⟩
    · simp only [setContent, setSlot_slot_self, Slot.write_link, hl]
    · simp only [content_setContent k l gen gen [] hlt, if_pos]
    · intro g hg
      simp only [content_setContent k l gen g [] hlt, if_neg hg]
    · simp [setContent]
  | none =>
    refine ⟨(k.slot l).files.length, rfl, ?_, ?_, ?_, ?_, .inr ⟨rfl, rfl⟩⟩
    · simp only [setSlot_slot_self, Slot.create_link]
    · simp only [content_create]
      simp [content]
    · intro g _
      simp only [content_create]
    · simp [Slot.create]

/-- Only a path that denotes an entry can be opened for writing. -/
theorem openWrite_eq_none {p : Path} :
    (k.openWrite p).1 = none ↔ ∀ l, k.tree.resolve p ≠ .entry l := by
  constructor
  · intro h l hl
    obtain ⟨gen, hopen, -⟩ := openWrite_entry k hl
    rw [hopen] at h
    cases h
  · intro h
    unfold openWrite
    split
    · rename_i l hl
      exact absurd hl (h l)
    · rfl

/-- A failed `open` changes nothing. -/
theorem openWrite_none_disk {p : Path} (h : (k.openWrite p).1 = none) :
    (k.openWrite p).2 = k := by
  have hne := (openWrite_eq_none k).mp h
  unfold openWrite
  split
  · rename_i l hl
    exact absurd hl (hne l)
  · rfl

/-! #### `unlink` -/

@[simp] theorem unlink_tree (p : Path) : (k.unlink p).2.tree = k.tree := by
  unfold unlink
  split
  · split <;> rfl
  · rfl

/-- `unlink` changes no entry but the one its path denotes. -/
theorem unlink_slot_of_ne {p : Path} {l : Loc} (h : k.tree.resolve p ≠ .entry l) :
    (k.unlink p).2.slot l = k.slot l := by
  unfold unlink
  split
  · rename_i m hm
    have hne : l ≠ m := fun hlm => h (by rw [hm, hlm])
    split
    · exact setSlot_slot_of_ne k _ hne
    · rfl
  · rfl

/-- `unlink` changes no contents. -/
@[simp] theorem unlink_files (p : Path) (l : Loc) :
    ((k.unlink p).2.slot l).files = (k.slot l).files := by
  by_cases h : k.tree.resolve p = .entry l
  · unfold unlink
    simp only [h]
    cases (k.slot l).link <;> simp
  · rw [unlink_slot_of_ne k h]

@[simp] theorem unlink_content (p : Path) (l : Loc) (gen : Nat) :
    (k.unlink p).2.content l gen = k.content l gen := by
  simp only [content, unlink_files]

/-- After `unlink` its path denotes no file. -/
theorem unlink_link {p : Path} {l : Loc} (h : k.tree.resolve p = .entry l) :
    ((k.unlink p).2.slot l).link = none := by
  unfold unlink
  simp only [h]
  cases hl : (k.slot l).link <;> simp [hl]

/-- **`unlink`** succeeds exactly on the path of a regular file. -/
theorem unlink_fst (p : Path) : (k.unlink p).1 = (k.read p).isSome := by
  unfold unlink read
  cases h : k.tree.resolve p with
  | entry l => cases hl : (k.slot l).link <;> simp [lookup, hl]
  | dir d => rfl
  | none => rfl

/-- A failed `unlink` changes nothing. -/
theorem unlink_false_disk {p : Path} (h : (k.unlink p).1 = false) : (k.unlink p).2 = k := by
  unfold unlink at h ⊢
  cases hr : k.tree.resolve p with
  | entry l => simp only [hr] at h ⊢; cases hl : (k.slot l).link <;> simp_all
  | dir d => rfl
  | none => rfl

/-! #### `pwrite` -/

@[simp] theorem pwrite_tree (h : Handle) (bs : List Byte) (off : Nat) :
    (k.pwrite h bs off).tree = k.tree := by cases h <;> rfl

theorem pwrite_slot_of_ne {l m : Loc} (gen : Nat) (bs : List Byte) (off : Nat) (h : m ≠ l) :
    (k.pwrite (.file l gen) bs off).slot m = k.slot m := setSlot_slot_of_ne k _ h

@[simp] theorem pwrite_link (h : Handle) (bs : List Byte) (off : Nat) (l : Loc) :
    ((k.pwrite h bs off).slot l).link = (k.slot l).link := by
  cases h with
  | file m gen =>
    by_cases hlm : l = m
    · subst hlm; simp [pwrite, setContent]
    · rw [pwrite_slot_of_ne k gen bs off hlm]
  | dir d => rfl

@[simp] theorem length_pwrite_files (h : Handle) (bs : List Byte) (off : Nat) (l : Loc) :
    ((k.pwrite h bs off).slot l).files.length = (k.slot l).files.length := by
  cases h with
  | file m gen =>
    by_cases hlm : l = m
    · subst hlm; simp [pwrite, setContent]
    · rw [pwrite_slot_of_ne k gen bs off hlm]
  | dir d => rfl

/-- `pwrite` changes the contents of its own file. -/
theorem content_pwrite {l : Loc} {gen : Nat} (gen' : Nat) (bs : List Byte) (off : Nat)
    (h : gen < (k.slot l).files.length) :
    (k.pwrite (.file l gen) bs off).content l gen'
      = if gen' = gen then overwrite (k.content l gen) off bs else k.content l gen' :=
  content_setContent k l gen gen' _ h

end Disk

/-- Writing at the end of a file appends. -/
theorem overwrite_length (old bs : List Byte) : overwrite old old.length bs = old ++ bs := by
  simp [overwrite]

end FileServer
