/-
  The list of names.

  `Names v ws` says that a vector holds the strings `ws` and no `NULL`.  On such a
  vector the `strcmp` search finds the first occurrence, `add_file_to_list` appends
  a name that is not there, `remove_file_from_list` erases the first occurrence, and
  the buffer of `build_list_buffer` is the size of the joined names and the joined
  names, written to the last byte (`listBuffer_eq`).
-/
import FileServer.Equiv.Frame
import Mathlib.Data.List.Basic

namespace FileServer

/-- The vector holds these strings, in this order. -/
def Names (v : FssVector Path) (ws : List Path) : Prop := v.contents = ws.map some

/-- The payload of LIST: the names with newlines between them. -/
def joinNames (ws : List Path) : List Byte := List.intercalate [newline] ws

/-! ### Searching -/

theorem searchName_map (name : Path) (i : Nat) (ws : List Path) :
    searchName name i (ws.map some)
      = if name ∈ ws then .found (i + ws.idxOf name) else .absent := by
  induction ws generalizing i with
  | nil => rfl
  | cons w ws ih =>
    rw [List.map_cons, searchName]
    by_cases hw : w = name
    · subst hw
      rw [if_pos rfl, if_pos (List.mem_cons_self ..), List.idxOf_cons_self, Nat.add_zero]
    · rw [if_neg hw, ih, List.idxOf_cons_ne _ hw]
      simp only [List.mem_cons, Ne.symm hw, false_or, Nat.succ_eq_add_one]
      split_ifs
      · rw [Nat.add_assoc, Nat.add_comm 1]
      · rfl

theorem searchName_found {name : Path} {ws : List Path} (h : name ∈ ws) :
    searchName name 0 (ws.map some) = .found (ws.idxOf name) := by
  rw [searchName_map, if_pos h, Nat.zero_add]

theorem searchName_absent {name : Path} {ws : List Path} (h : name ∉ ws) :
    searchName name 0 (ws.map some) = .absent := by rw [searchName_map, if_neg h]

/-! ### Adding and removing -/

section Lists

variable {c : Ctx} {ws : List Path}

theorem names_removeFileFromList (h : Names c.serverFiles ws) (name : Path) :
    Names (removeFileFromList c name).serverFiles (ws.erase name) ∧
      (removeFileFromList c name).fault = c.fault := by
  unfold removeFileFromList Ctx.use
  dsimp only
  rw [h]
  by_cases hmem : name ∈ ws
  · rw [searchName_found hmem]
    refine ⟨?_, rfl⟩
    rw [Names, contents_vectorErase, h, List.eraseIdx_map, List.eraseIdx_idxOf_eq_erase]
  · rw [searchName_absent hmem, List.erase_of_not_mem hmem]
    exact ⟨h, rfl⟩

/-- With memory to be had, `add_file_to_list` appends a new name. -/
theorem names_addFileToList (h : Names c.serverFiles ws) (hmem : c.script.mem = [])
    (name : Path) :
    Names (addFileToList c name).serverFiles (if name ∈ ws then ws else ws ++ [name]) ∧
      (addFileToList c name).fault = c.fault ∧ (addFileToList c name).script = c.script := by
  unfold addFileToList Ctx.use
  dsimp only
  rw [h]
  by_cases hin : name ∈ ws
  · rw [searchName_found hin, if_pos hin]
    exact ⟨h, rfl, rfl⟩
  · rw [searchName_absent hin, if_neg hin]
    have halloc : ∀ d : Ctx, d.script.mem = [] → d.sysAlloc = (true, d) := fun d hd => by
      simp [Ctx.sysAlloc, Script.alloc, hd]
    dsimp only
    rw [halloc _ (by exact hmem)]
    dsimp only
    rw [halloc _ (by exact hmem), ite_self]
    refine ⟨?_, rfl, rfl⟩
    rw [Names, contents_vectorPushBack, if_neg (by simp), h, List.map_append]
    rfl

/-! ### The LIST payload -/

theorem joinNames_cons (w : Path) {ws : List Path} (h : ws ≠ []) :
    joinNames (w :: ws) = w ++ newline :: joinNames ws := by
  obtain ⟨v, ws, rfl⟩ := List.exists_cons_of_ne_nil h
  simp [joinNames, List.intercalate, List.intersperse]

@[simp] theorem joinNames_singleton (w : Path) : joinNames [w] = w := by
  simp [joinNames, List.intercalate]

theorem listDataSize_eq (count i : Nat) (h : i + ws.length = count) :
    listDataSize count i ws = (joinNames ws).length := by
  induction ws generalizing i with
  | nil => rfl
  | cons w ws ih =>
    rw [List.length_cons] at h
    rw [listDataSize, ih (i + 1) (by omega)]
    by_cases hws : ws = []
    · subst hws
      simp only [List.length_nil] at h
      rw [if_neg (by omega), joinNames_singleton]
      rfl
    · have hpos := List.length_pos_of_ne_nil hws
      rw [if_pos (by omega), joinNames_cons w hws, List.length_append, List.length_cons]
      omega

theorem copyAt_append (pre rest bs : List Byte) :
    copyAt (pre ++ rest) pre.length bs = pre ++ bs ++ rest.drop bs.length := by
  simp [copyAt, List.drop_append]

/-- The copy loop fills what is behind `pre` exactly. -/
theorem fillListData_eq (count i : Nat) (pre rest : List Byte) (h : i + ws.length = count)
    (hrest : rest.length = (joinNames ws).length) :
    fillListData count i ws pre.length (pre ++ rest)
      = (pre.length + (joinNames ws).length, pre ++ joinNames ws) := by
  induction ws generalizing i pre rest with
  | nil =>
    obtain rfl := List.eq_nil_of_length_eq_zero hrest
    rfl
  | cons w ws ih =>
    rw [List.length_cons] at h
    rw [fillListData, copyAt_append]
    by_cases hws : ws = []
    · subst hws
      simp only [List.length_nil] at h
      rw [joinNames_singleton] at hrest ⊢
      rw [if_neg (by omega), fillListData, List.drop_of_length_le (by omega), List.append_nil]
    · have hpos := List.length_pos_of_ne_nil hws
      have hjoin := joinNames_cons w hws
      have hlen : (pre ++ w).length = pre.length + w.length := List.length_append
      rw [hjoin, List.length_append, List.length_cons] at hrest
      rw [if_pos (by omega), ← hlen, copyAt_append, List.length_singleton, List.drop_drop]
      have hlen' : (pre ++ w ++ [newline]).length = (pre ++ w).length + 1 := List.length_append
      rw [← hlen', ih (i + 1) _ _ (by omega) (by rw [List.length_drop]; omega), hjoin]
      simp only [List.length_append, List.length_cons, List.length_nil, List.append_assoc,
        List.singleton_append, Prod.mk.injEq, and_true]
      omega

/-- The two loops of `build_list_buffer` agree: the copy ends where the buffer does, and every byte
of it is written, whatever it held before. -/
theorem fillListData_full {ws : List Path} {buffer : List Byte}
    (h : buffer.length = sizeLen + listDataSize ws.length 0 ws) :
    fillListData ws.length 0 ws sizeLen
        (copyAt buffer 0 (sizeBytes (listDataSize ws.length 0 ws)))
      = (buffer.length, sizeBytes (joinNames ws).length ++ joinNames ws) := by
  have hsize := listDataSize_eq ws.length 0 (Nat.zero_add ws.length)
  rw [hsize] at h ⊢
  have hcopy : copyAt buffer 0 (sizeBytes (joinNames ws).length)
      = sizeBytes (joinNames ws).length ++ buffer.drop sizeLen := by
    have hcopy := copyAt_append [] buffer (sizeBytes (joinNames ws).length)
    rwa [List.nil_append, List.nil_append, List.length_nil, length_sizeBytes] at hcopy
  have hlen : sizeLen = (sizeBytes (joinNames ws).length).length := (length_sizeBytes _).symm
  have hdrop : (buffer.drop sizeLen).length = (joinNames ws).length := by
    rw [List.length_drop, h, Nat.add_sub_cancel_left]
  rw [hcopy, h]
  conv_lhs => rw [hlen]
  rw [fillListData_eq _ _ _ _ (Nat.zero_add _) (by rw [← hlen]; exact hdrop), ← hlen]

/-- **The buffer of `build_list_buffer`.** -/
theorem listBuffer_eq (ws : List Path) :
    listBuffer ws = sizeBytes (joinNames ws).length ++ joinNames ws := by
  unfold listBuffer
  dsimp only
  rw [fillListData_full List.length_replicate]

theorem mapM_id_map_some (ws : List Path) : (ws.map some).mapM id = some ws := by
  induction ws with
  | nil => rfl
  | cons w ws ih => simp [List.mapM_cons, ih]

theorem mapM_id_eq_none {xs : List (Option Path)} : xs.mapM id = none ↔ none ∈ xs := by
  induction xs with
  | nil => simp
  | cons x xs ih =>
    cases x with
    | none => simp [List.mapM_cons]
    | some w => cases hxs : xs.mapM id <;> simp_all [List.mapM_cons]

theorem mapM_id_eq_some {xs : List (Option Path)} {ws : List Path} (h : xs.mapM id = some ws) :
    xs = ws.map some := by
  induction xs generalizing ws with
  | nil => obtain rfl : [] = ws := by simpa using h
           rfl
  | cons x xs ih =>
    cases x with
    | none => simp [List.mapM_cons] at h
    | some w =>
      cases hxs : xs.mapM id with
      | none => simp [List.mapM_cons, hxs] at h
      | some vs =>
        obtain rfl : w :: vs = ws := by simpa [List.mapM_cons, hxs] using h
        rw [ih hxs]
        rfl

/-- A buffer that was built holds the names of a list without `NULL`. -/
theorem buildListBuffer_eq_some {buffer : List Byte} (h : (buildListBuffer c).1 = some buffer) :
    ∃ ws, Names c.serverFiles ws ∧
      buffer = sizeBytes (joinNames ws).length ++ joinNames ws := by
  unfold buildListBuffer Ctx.use at h
  dsimp only at h
  cases hm : c.serverFiles.contents.mapM id with
  | none => rw [hm] at h; cases h
  | some ws =>
    rw [hm] at h
    dsimp only at h
    split_ifs at h
    exact ⟨ws, mapM_id_eq_some hm, by rw [← Option.some.inj h, listBuffer_eq]⟩

/-- With memory to be had, a list without `NULL` is put in a buffer. -/
theorem buildListBuffer_of_names (h : Names c.serverFiles ws) (hmem : c.script.mem = []) :
    (buildListBuffer c).1 = some (sizeBytes (joinNames ws).length ++ joinNames ws) ∧
      (buildListBuffer c).2 = c.use .list := by
  unfold buildListBuffer Ctx.use
  dsimp only
  rw [h, mapM_id_map_some]
  simp [Ctx.sysAlloc, Script.alloc, hmem, listBuffer_eq]

end Lists

end FileServer
