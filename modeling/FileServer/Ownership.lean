/-
  Who frees the names of `server_files`.

  The elements of the vector are strings that `strdup` allocated.  The vector was
  created without a destructor, so `vector_erase` and `vector_destroy` free nothing, and
  `remove_file_from_list` and `cleanup` call `free` themselves.  Here the list is
  followed on the heap through the uses that the handlers make of it (`Globals.uses`),
  and the names of the server are what its pointers point to (`Mirrors`).
  `names_freed_once`: in every run, whichever allocations fail, no freed string is read
  or freed again, and `cleanup` leaves no string but those that `vector_push_back` could
  not make room for.
-/
import FileServer.Containers
import FileServer.Lifetime
import Mathlib.Data.List.Nodup

namespace FileServer

/-! ### Strings -/

/-- The address of a string: how many strings `strdup` had returned before it. -/
abbrev StringId := Nat

/-- The strings on the heap. -/
structure StringHeap where
  /-- What `strdup` has copied, by address. -/
  texts : List Path
  /-- What `free` was called on, oldest first. -/
  freed : List StringId

/-- The string at an address, if it is not freed. -/
def StringHeap.read (h : StringHeap) (p : StringId) : Option Path :=
  if p ∈ h.freed then none else h.texts[p]?

/-- `server_files` on the heap, and whether the process still has defined behaviour. -/
structure NameList where
  heap : StringHeap
  files : FssVector StringId
  /-- A `NULL` element was dereferenced. -/
  null : Bool
  /-- A freed string was read, or freed again. -/
  dangling : Bool

/-- How a search with `strcmp` through the strings ends. -/
inductive PointerSearch
  | found (i : Nat)
  | absent | null | dangling
  deriving DecidableEq

/-- `strcmp` the strings with `name` until one is equal; `i` is the index of the first. -/
def searchPointer (h : StringHeap) (name : Path) : Nat → List (Option StringId) → PointerSearch
  | _, [] => .absent
  | _, none :: _ => .null
  | i, some p :: ps =>
    match h.read p with
    | none => .dangling
    | some w => if w = name then .found i else searchPointer h name (i + 1) ps

namespace NameList

/-- The list when the process starts. -/
def start : NameList := ⟨⟨[], []⟩, vectorCreate false, false, false⟩

/-- `strdup`; `none` is `NULL`. -/
def strdup (n : NameList) (name : Path) (ok : Bool) : Option StringId × NameList :=
  if ok then
    (some n.heap.texts.length, { n with heap := { n.heap with texts := n.heap.texts ++ [name] } })
  else (none, n)

/-- `free`; nothing happens for `NULL`. -/
def free (n : NameList) : Option StringId → NameList
  | none => n
  | some p =>
    if p ∈ n.heap.freed then { n with dangling := true }
    else { n with heap := { n.heap with freed := n.heap.freed ++ [p] } }

/-- The search that `add_file_to_list`, `remove_file_from_list` and `delete_request` share. -/
def search (n : NameList) (name : Path) : PointerSearch :=
  searchPointer n.heap name 0 n.files.contents

/-- `add_file_to_list`; `dup` says whether `strdup` succeeds, and `grow` whether the vector grows
where it has to. -/
def add (n : NameList) (name : Path) (dup grow : Bool) : NameList :=
  match n.search name with
  | .found _ => n
  | .null => { n with null := true }
  | .dangling => { n with dangling := true }
  | .absent =>
    let d := n.strdup name dup
    { d.2 with files := vectorPushBack n.files d.1 grow }

/-- `remove_file_from_list`. -/
def remove (n : NameList) (name : Path) : NameList :=
  match n.search name with
  | .found i => { n.free (vectorGet n.files i) with files := vectorErase n.files i }
  | .null => { n with null := true }
  | .dangling => { n with dangling := true }
  | .absent => n

/-- The search of `delete_request`. -/
def find (n : NameList) (name : Path) : NameList :=
  match n.search name with
  | .null => { n with null := true }
  | .dangling => { n with dangling := true }
  | _ => n

/-- The loops of `build_list_buffer`: every string is read. -/
def list (n : NameList) : NameList :=
  if none ∈ n.files.contents then { n with null := true }
  else if ∃ p ∈ n.files.contents.filterMap id, n.heap.read p = none then
    { n with dangling := true }
  else n

/-- The loop of `cleanup` over the names. -/
def cleanup (n : NameList) : NameList := n.files.contents.foldl free n

end NameList

/-- The allocations of the use succeed. -/
def ListOp.Plenty : ListOp → Prop
  | .add _ dup grow => dup = true ∧ grow = true
  | _ => True

namespace NameList

/-- The use on the heap.  Behind a `NULL` element, where the process has no defined behaviour, the
list is followed on. -/
def act (n : NameList) : ListOp → NameList
  | .add name dup grow => n.add name dup grow
  | .remove name => n.remove name
  | .find name => n.find name
  | .list => n.list

/-- `vector_push_back` has no room for a string that was allocated. -/
def loses (n : NameList) : ListOp → Bool
  | .add name dup grow => decide (n.search name = .absent) && dup && n.files.full && !grow
  | _ => false

/-- How many strings are lost that way. -/
def losses (n : NameList) : List ListOp → Nat
  | [] => 0
  | op :: ops => (n.loses op).toNat + (n.act op).losses ops

end NameList

/-! ### Ownership -/

/-- The strings that the vector points to. -/
def NameList.owned (n : NameList) : List StringId := n.files.contents.filterMap id

/-- Each string is in the vector once, or was freed once, or is one of the `lost`. -/
structure Owned (n : NameList) (lost : Nat) : Prop where
  nodup : n.owned.Nodup
  live : ∀ p ∈ n.owned, p < n.heap.texts.length ∧ p ∉ n.heap.freed
  freed_nodup : n.heap.freed.Nodup
  freed_lt : ∀ p ∈ n.heap.freed, p < n.heap.texts.length
  count : n.owned.length + n.heap.freed.length + lost = n.heap.texts.length
  sound : n.dangling = false

section Lists

variable {n : NameList} {lost : Nat} {h : StringHeap} {name : Path} {dup grow : Bool}

theorem mem_owned {p : StringId} : p ∈ n.owned ↔ some p ∈ n.files.contents := by
  simp [NameList.owned]

theorem StringHeap.read_eq_some {p : StringId} (hlt : p < h.texts.length) (hp : p ∉ h.freed) :
    h.read p = some h.texts[p] := by
  rw [read, if_neg hp, List.getElem?_eq_getElem hlt]

theorem Owned.read_ne_none (ho : Owned n lost) {p : StringId} (hp : p ∈ n.owned) :
    n.heap.read p ≠ none := by
  obtain ⟨hlt, hfreed⟩ := ho.live p hp
  rw [StringHeap.read_eq_some hlt hfreed]
  exact Option.some_ne_none _

/-- What a search among names finds, found among pointers. -/
def Search.pointer : Search → PointerSearch
  | .found i => .found i
  | .absent => .absent
  | .null => .null

/-- **Search.** Where no freed string is in the list, the pointers are searched as the names are. -/
theorem searchPointer_eq (ps : List (Option StringId)) (i : Nat)
    (hps : ∀ p, some p ∈ ps → h.read p ≠ none) :
    searchPointer h name i ps
      = (searchName name i (ps.map fun e => e.bind h.read)).pointer := by
  induction ps generalizing i with
  | nil => rfl
  | cons e ps ih =>
    cases e with
    | none => rfl
    | some p =>
      obtain ⟨w, hw⟩ := Option.ne_none_iff_exists'.mp (hps p (List.mem_cons_self ..))
      rw [searchPointer, hw, List.map_cons, Option.bind_some, hw, searchName]
      dsimp only
      split_ifs
      · rfl
      · exact ih (i + 1) fun q hq => hps q (List.mem_cons_of_mem _ hq)

/-- The names that the pointers point to. -/
def NameList.names (n : NameList) : List (Option Path) :=
  n.files.contents.map fun e => e.bind n.heap.read

theorem Owned.search_eq (ho : Owned n lost) (name : Path) :
    n.search name = (searchName name 0 n.names).pointer :=
  searchPointer_eq _ 0 fun _ hp => ho.read_ne_none (mem_owned.mpr hp)

theorem Owned.search_ne (ho : Owned n lost) (name : Path) : n.search name ≠ .dangling := by
  rw [ho.search_eq]
  cases searchName name 0 n.names <;> exact nofun

/-- An element that was found is a string. -/
theorem searchPointer_found {ps : List (Option StringId)} {i j : Nat}
    (hs : searchPointer h name i ps = .found j) :
    ∃ k p, j = i + k ∧ ps[k]? = some (some p) := by
  induction ps generalizing i with
  | nil => cases hs
  | cons e ps ih =>
    cases e with
    | none => cases hs
    | some p =>
      rw [searchPointer] at hs
      cases hr : h.read p with
      | none => rw [hr] at hs; cases hs
      | some w =>
        rw [hr] at hs
        dsimp only at hs
        split_ifs at hs
        · obtain rfl := PointerSearch.found.inj hs
          exact ⟨0, p, rfl, rfl⟩
        · obtain ⟨k, q, rfl, hq⟩ := ih hs
          exact ⟨k + 1, q, by omega, hq⟩

/-- The strings behind a removal. -/
theorem filterMap_eraseIdx {α : Type} {l : List (Option α)} {i : Nat} {x : α}
    (hi : l[i]? = some (some x)) :
    (l.filterMap id).Perm (x :: (l.eraseIdx i).filterMap id) := by
  induction l generalizing i with
  | nil => cases hi
  | cons e l ih =>
    cases i with
    | zero =>
      obtain rfl := Option.some.inj hi
      exact List.Perm.refl _
    | succ i =>
      have hperm := ih hi
      rw [List.eraseIdx_cons_succ]
      cases e with
      | none => exact hperm
      | some y => exact (hperm.cons y).trans (List.Perm.swap ..)

theorem NameList.loses_of_ne (hs : n.search name ≠ .absent) :
    n.loses (.add name dup grow) = false := by simp [loses, hs]

/-- The ownership, for the strings that the vector points to now. -/
theorem Owned.of_eq {ps : List StringId} (h : n.owned = ps) (hnodup : ps.Nodup)
    (hlive : ∀ p ∈ ps, p < n.heap.texts.length ∧ p ∉ n.heap.freed)
    (hfreed : n.heap.freed.Nodup) (hlt : ∀ p ∈ n.heap.freed, p < n.heap.texts.length)
    (hcount : ps.length + n.heap.freed.length + lost = n.heap.texts.length)
    (hsound : n.dangling = false) : Owned n lost := by
  subst h
  exact ⟨hnodup, hlive, hfreed, hlt, hcount, hsound⟩

theorem Owned.null (ho : Owned n lost) : Owned { n with null := true } lost :=
  ⟨ho.nodup, ho.live, ho.freed_nodup, ho.freed_lt, ho.count, ho.sound⟩

/-- The strings behind `vector_push_back`. -/
theorem owned_vectorPushBack (n : NameList) (grow : Bool) (x : Option StringId) :
    (vectorPushBack n.files x grow).contents.filterMap id
      = if n.files.full = true ∧ grow = false then n.owned else n.owned ++ x.toList := by
  rw [contents_vectorPushBack]
  split_ifs
  · rfl
  · rw [List.filterMap_append]
    cases x <;> rfl

/-- **Adding a name.** -/
theorem Owned.add (ho : Owned n lost) (name : Path) (dup grow : Bool) :
    Owned (n.add name dup grow) (lost + (n.loses (.add name dup grow)).toNat) := by
  cases hs : n.search name with
  | found i =>
    rw [NameList.loses_of_ne (by rw [hs]; simp), NameList.add, hs]
    exact ho
  | null =>
    rw [NameList.loses_of_ne (by rw [hs]; simp), NameList.add, hs]
    exact ho.null
  | dangling => exact absurd hs (ho.search_ne name)
  | absent =>
    have hcount := ho.count
    have hloses : n.loses (.add name dup grow) = (dup && n.files.full && !grow) := by
      simp [NameList.loses, hs]
    rw [hloses, NameList.add, hs]
    dsimp only
    cases dup with
    | false =>
      -- a string that cannot be allocated leaves `NULL` in the list
      have howned := owned_vectorPushBack n grow none
      rw [Option.toList_none, List.append_nil, ite_self] at howned
      exact .of_eq howned ho.nodup ho.live ho.freed_nodup ho.freed_lt hcount ho.sound
    | true =>
      have hlen : (n.heap.texts ++ [name]).length = n.heap.texts.length + 1 :=
        List.length_append
      have howned := owned_vectorPushBack n grow (some n.heap.texts.length)
      have hlive : ∀ p ∈ n.owned, p < (n.heap.texts ++ [name]).length ∧ p ∉ n.heap.freed := by
        intro p hp
        obtain ⟨hlt, hfreed⟩ := ho.live p hp
        rw [hlen]
        exact ⟨Nat.lt_succ_of_lt hlt, hfreed⟩
      have hfreed : ∀ p ∈ n.heap.freed, p < (n.heap.texts ++ [name]).length := by
        intro p hp
        rw [hlen]
        exact Nat.lt_succ_of_lt (ho.freed_lt p hp)
      by_cases hfull : n.files.full = true ∧ grow = false
      · rw [if_pos hfull] at howned
        obtain ⟨hfull, rfl⟩ := hfull
        refine .of_eq howned ho.nodup hlive ho.freed_nodup hfreed ?_ ho.sound
        show n.owned.length + n.heap.freed.length + (lost + (true && n.files.full && !false).toNat)
          = (n.heap.texts ++ [name]).length
        rw [hfull, hlen]
        show n.owned.length + n.heap.freed.length + (lost + 1) = _
        omega
      · rw [if_neg hfull] at howned
        refine .of_eq howned ?_ ?_ ho.freed_nodup hfreed ?_ ho.sound
        · rw [Option.toList_some, List.nodup_append]
          refine ⟨ho.nodup, List.nodup_singleton _, fun p hp q hq => ?_⟩
          rw [List.mem_singleton.mp hq]
          rintro rfl
          exact Nat.lt_irrefl _ (ho.live _ hp).1
        · intro p hp
          rcases List.mem_append.mp hp with hp | hp
          · exact hlive p hp
          · rw [List.mem_singleton.mp hp]
            refine ⟨hlen.symm ▸ Nat.lt_succ_self _, fun hmem => ?_⟩
            exact Nat.lt_irrefl _ (ho.freed_lt _ hmem)
        · have hnone : (true && n.files.full && !grow) = false := by
            cases hf : n.files.full <;> cases grow <;> simp_all
          show (n.owned ++ [_]).length + n.heap.freed.length + (lost + Bool.toNat _)
            = (n.heap.texts ++ [name]).length
          rw [hnone, hlen, List.length_append, List.length_singleton]
          show n.owned.length + 1 + n.heap.freed.length + (lost + 0) = _
          omega

/-- **Freeing an element**, which the list then has no more. -/
theorem Owned.remove (ho : Owned n lost) (name : Path) : Owned (n.remove name) lost := by
  unfold NameList.remove
  cases hs : n.search name with
  | null => exact ho.null
  | absent => exact ho
  | dangling => exact absurd hs (ho.search_ne name)
  | found i =>
    obtain ⟨j, p, hij, hp⟩ := searchPointer_found hs
    obtain rfl : i = j := by omega
    have hget : vectorGet n.files i = some p := by rw [vectorGet_eq, hp]; rfl
    have hperm := filterMap_eraseIdx hp
    obtain ⟨hlt, hfreed⟩ := ho.live p (hperm.mem_iff.mpr (List.mem_cons_self ..))
    obtain ⟨hnotMem, hnodup⟩ := List.nodup_cons.mp (hperm.nodup_iff.mp ho.nodup)
    have howned : (vectorErase n.files i).contents.filterMap id
        = (n.files.contents.eraseIdx i).filterMap id := by rw [contents_vectorErase]
    dsimp only
    rw [hget, NameList.free, if_neg hfreed]
    refine .of_eq howned hnodup ?_ ?_ ?_ ?_ ho.sound
    · intro q hq
      obtain ⟨hlt', hfreed'⟩ := ho.live q (hperm.mem_iff.mpr (List.mem_cons_of_mem _ hq))
      refine ⟨hlt', fun hmem => ?_⟩
      rcases List.mem_append.mp hmem with hmem | hmem
      · exact hfreed' hmem
      · rw [List.mem_singleton.mp hmem] at hq
        exact hnotMem hq
    · show (n.heap.freed ++ [p]).Nodup
      rw [List.nodup_append]
      refine ⟨ho.freed_nodup, List.nodup_singleton _, fun q hq r hr => ?_⟩
      rw [List.mem_singleton.mp hr]
      rintro rfl
      exact hfreed hq
    · intro q hq
      rcases List.mem_append.mp hq with hq | hq
      · exact ho.freed_lt q hq
      · rw [List.mem_singleton.mp hq]
        exact hlt
    · have hcount := ho.count
      have hlen : n.owned.length = ((n.files.contents.eraseIdx i).filterMap id).length + 1 :=
        hperm.length_eq
      show List.length _ + (n.heap.freed ++ [p]).length + lost = n.heap.texts.length
      rw [List.length_append, List.length_singleton]
      omega

/-- **Every use of the list** keeps the ownership. -/
theorem Owned.act (ho : Owned n lost) (op : ListOp) :
    Owned (n.act op) (lost + (n.loses op).toNat) := by
  cases op with
  | add name dup grow => exact ho.add name dup grow
  | remove name => exact ho.remove name
  | find name =>
    show Owned (n.find name) lost
    unfold NameList.find
    cases hs : n.search name with
    | dangling => exact absurd hs (ho.search_ne name)
    | null => exact ho.null
    | _ => exact ho
  | list =>
    show Owned n.list lost
    unfold NameList.list
    split_ifs with hnone hread
    · exact ho.null
    · obtain ⟨p, hp, hr⟩ := hread
      exact absurd hr (ho.read_ne_none hp)
    · exact ho

theorem Owned.acts (ho : Owned n lost) (ops : List ListOp) :
    Owned (ops.foldl NameList.act n) (lost + n.losses ops) := by
  induction ops generalizing n lost with
  | nil => exact ho
  | cons op ops ih =>
    rw [NameList.losses, ← Nat.add_assoc]
    exact ih (ho.act op)

/-- With memory to be had, nothing is lost. -/
theorem NameList.losses_eq_zero {ops : List ListOp} (h : ∀ op ∈ ops, op.Plenty) :
    n.losses ops = 0 := by
  induction ops generalizing n with
  | nil => rfl
  | cons op ops ih =>
    obtain ⟨hop, hops⟩ := List.forall_mem_cons.mp h
    have hloses : n.loses op = false := by
      cases op with
      | add name dup grow =>
        obtain ⟨rfl, rfl⟩ := hop
        exact Bool.and_false _
      | _ => rfl
    rw [losses, hloses, ih hops]
    rfl

/-! ### The names -/

/-- The names of the server are what the pointers point to. -/
structure Mirrors (n : NameList) (g : Globals) : Prop where
  capacity : n.files.capacity = g.serverFiles.capacity
  names : n.names = g.serverFiles.contents
  null : n.null = true → g.fault = true

theorem Mirrors.congr {g g' : Globals} (hm : Mirrors n g) (hfiles : g'.serverFiles = g.serverFiles)
    (hfault : g.fault = true → g'.fault = true) : Mirrors n g' :=
  ⟨by rw [hfiles]; exact hm.capacity, by rw [hfiles]; exact hm.names, fun h => hfault (hm.null h)⟩

theorem Mirrors.fault {g : Globals} (hm : Mirrors n g) :
    Mirrors { n with null := true } { g with fault := true } :=
  ⟨hm.capacity, hm.names, fun _ => rfl⟩

theorem Mirrors.full {g : Globals} (hm : Mirrors n g) : n.files.full = g.serverFiles.full := by
  have hsize : n.files.size = g.serverFiles.size := by
    rw [← length_contents, ← length_contents, ← hm.names, NameList.names, List.length_map]
  rw [FssVector.full, FssVector.full, hsize, hm.capacity]

theorem Mirrors.search {g : Globals} (hm : Mirrors n g) (ho : Owned n lost) (name : Path) :
    n.search name = (searchName name 0 g.serverFiles.contents).pointer := by
  rw [ho.search_eq, hm.names]

theorem capacity_vectorPushBack {α : Type} (v : FssVector α) (x : Option α) :
    (vectorPushBack v x grow).capacity
      = if v.full = true ∧ grow = true then v.capacity * growthFactor else v.capacity := by
  unfold vectorPushBack
  cases v.full <;> cases grow <;> rfl

theorem capacity_vectorErase {α : Type} (v : FssVector α) (i : Nat) :
    (vectorErase v i).capacity = v.capacity := by
  unfold vectorErase
  split_ifs <;> rfl

/-- The name of an element is the same when there is one more string. -/
theorem StringHeap.read_append {p : StringId} (hlt : p < h.texts.length) :
    (⟨h.texts ++ [name], h.freed⟩ : StringHeap).read p = h.read p := by
  unfold read
  dsimp only
  rw [List.getElem?_append_left hlt]

/-- And when another string is freed. -/
theorem StringHeap.read_freed {p q : StringId} (hne : q ≠ p) :
    (⟨h.texts, h.freed ++ [p]⟩ : StringHeap).read q = h.read q := by
  unfold read
  simp [hne]

/-- Behind `strdup` the elements point to what they pointed to before. -/
theorem Owned.names_strdup (ho : Owned n lost) (name : Path) :
    (n.files.contents.map fun e =>
      e.bind (⟨n.heap.texts ++ [name], n.heap.freed⟩ : StringHeap).read) = n.names := by
  refine List.map_congr_left fun e he => ?_
  cases e with
  | none => rfl
  | some p => exact StringHeap.read_append (ho.live p (mem_owned.mpr he)).1

/-- And the new string is the name. -/
theorem Owned.read_strdup (ho : Owned n lost) (name : Path) :
    (⟨n.heap.texts ++ [name], n.heap.freed⟩ : StringHeap).read n.heap.texts.length
      = some name := by
  unfold StringHeap.read
  rw [if_neg fun hmem => Nat.lt_irrefl _ (ho.freed_lt _ hmem)]
  exact List.getElem?_concat_length

variable {c c' : Ctx}

/-- **Adding a name** to both lists. -/
theorem Mirrors.add (hm : Mirrors n c.toGlobals) (ho : Owned n lost) (name : Path) :
    Mirrors (n.add name c.script.alloc.1 (growth c)) (addFileToList c name).toGlobals := by
  have hsearch := hm.search ho name
  let d := c.use (.add name c.script.alloc.1 (growth c))
  have hfiles : d.serverFiles = c.serverFiles := rfl
  unfold NameList.add addFileToList
  dsimp only
  cases hs : searchName name 0 c.serverFiles.contents with
  | found i =>
    rw [hs] at hsearch
    rw [hsearch, hfiles, hs]
    exact hm.congr rfl id
  | null =>
    rw [hs] at hsearch
    rw [hsearch, hfiles, hs]
    exact hm.fault.congr rfl id
  | absent =>
    rw [hs] at hsearch
    rw [hsearch, hfiles, hs]
    have hgrow : (if c.serverFiles.full = true then d.sysAlloc.2.sysAlloc
        else (true, d.sysAlloc.2)).1 = growth c := by
      unfold growth
      split_ifs <;> rfl
    have hfault : ∀ d : Ctx, d.fault = c.fault → (if c.serverFiles.full = true then
        d.sysAlloc.2.sysAlloc else (true, d.sysAlloc.2)).2.fault = c.fault := by
      intro d hd
      split_ifs <;> exact hd
    have hcap : ∀ x : Option StringId, ∀ y : Option Path,
        (vectorPushBack n.files x (growth c)).capacity
          = (vectorPushBack c.serverFiles y (growth c)).capacity := by
      intro x y
      rw [capacity_vectorPushBack, capacity_vectorPushBack, hm.full, hm.capacity]
    show Mirrors _ _
    dsimp only [Search.pointer]
    rw [hgrow]
    have hold := ho.names_strdup name
    have hnew := ho.read_strdup name
    cases hdup : c.script.alloc.1 with
    | false =>
      refine ⟨hcap .., ?_, fun h => Eq.trans (hfault _ (by rfl)) (hm.null h)⟩
      show ((vectorPushBack n.files none (growth c)).contents.map fun e => e.bind n.heap.read)
        = (vectorPushBack c.serverFiles (if d.sysAlloc.1 = true then _ else _) _).contents
      have hsys : d.sysAlloc.1 = false := hdup
      rw [hsys, if_neg Bool.false_ne_true, contents_vectorPushBack, contents_vectorPushBack,
        ← hm.full, ← hm.names]
      split_ifs
      · rfl
      · rw [List.map_append]
        rfl
    | true =>
      refine ⟨hcap .., ?_, fun h => Eq.trans (hfault _ (by rfl)) (hm.null h)⟩
      show ((vectorPushBack n.files (some n.heap.texts.length) (growth c)).contents.map fun e =>
          e.bind (⟨n.heap.texts ++ [name], n.heap.freed⟩ : StringHeap).read)
        = (vectorPushBack c.serverFiles (if d.sysAlloc.1 = true then _ else _) _).contents
      have hsys : d.sysAlloc.1 = true := hdup
      rw [hsys, if_pos rfl, contents_vectorPushBack,
        contents_vectorPushBack, ← hm.full, ← hm.names]
      split_ifs
      · exact hold
      · rw [List.map_append, hold]
        exact congrArg _ (congrArg (fun x => [x]) hnew)

/-- **Removing a name** from both. -/
theorem Mirrors.remove (hm : Mirrors n c.toGlobals) (ho : Owned n lost) (name : Path) :
    Mirrors (n.remove name) (removeFileFromList c name).toGlobals := by
  have hsearch := hm.search ho name
  have hfiles : (c.use (.remove name)).serverFiles = c.serverFiles := rfl
  unfold NameList.remove removeFileFromList
  dsimp only
  rw [hfiles]
  cases hs : searchName name 0 c.serverFiles.contents with
  | absent =>
    rw [hs] at hsearch
    rw [hsearch]
    exact hm.congr rfl id
  | null =>
    rw [hs] at hsearch
    rw [hsearch]
    exact hm.fault.congr rfl id
  | found i =>
    rw [hs] at hsearch
    obtain ⟨j, p, hij, hp⟩ := searchPointer_found hsearch
    rw [Nat.zero_add] at hij
    subst hij
    have hperm := filterMap_eraseIdx hp
    have hfreed := (ho.live p (hperm.mem_iff.mpr (List.mem_cons_self ..))).2
    have hnodup := List.nodup_cons.mp (hperm.nodup_iff.mp ho.nodup)
    have hget : vectorGet n.files i = some p := by rw [vectorGet_eq, hp]; rfl
    -- no other element points to the string
    have hold : ((n.files.contents.eraseIdx i).map fun e =>
        e.bind (⟨n.heap.texts, n.heap.freed ++ [p]⟩ : StringHeap).read) = n.names.eraseIdx i := by
      rw [NameList.names, List.eraseIdx_map]
      refine List.map_congr_left fun e he => ?_
      cases e with
      | none => rfl
      | some q =>
        refine StringHeap.read_freed ?_
        rintro rfl
        exact hnodup.1 (List.mem_filterMap.mpr ⟨_, he, rfl⟩)
    rw [hsearch]
    show Mirrors _ _
    dsimp only [Search.pointer]
    rw [hget, NameList.free, if_neg hfreed]
    refine ⟨?_, ?_, hm.null⟩
    · show (vectorErase n.files i).capacity = (vectorErase c.serverFiles i).capacity
      rw [capacity_vectorErase, capacity_vectorErase, hm.capacity]
    · show ((vectorErase n.files i).contents.map _) = (vectorErase c.serverFiles i).contents
      rw [contents_vectorErase, contents_vectorErase, ← hm.names]
      exact hold

/-- **The search** of `delete_request`, which stops the process where it meets `NULL`. -/
theorem Mirrors.find (hm : Mirrors n c.toGlobals) (ho : Owned n lost) (name : Path)
    (hnull : searchName name 0 c.serverFiles.contents ≠ .null) :
    Mirrors (n.find name) c.toGlobals := by
  unfold NameList.find
  rw [hm.search ho name]
  show Mirrors _ _
  cases hs : searchName name 0 c.serverFiles.contents with
  | null => exact absurd hs hnull
  | _ => exact hm

theorem Owned.none_mem_names (ho : Owned n lost) : none ∈ n.names ↔ none ∈ n.files.contents := by
  rw [NameList.names, List.mem_map]
  constructor
  · rintro ⟨e, he, hnone⟩
    cases e with
    | none => exact he
    | some p => exact absurd hnone (ho.read_ne_none (mem_owned.mpr he))
  · exact fun h => ⟨none, h, rfl⟩

/-- **The buffer of LIST** is built from the same names. -/
theorem Mirrors.list (hm : Mirrors n c.toGlobals) (ho : Owned n lost) :
    Mirrors n.list (buildListBuffer c).2.toGlobals := by
  have hfiles : (c.use .list).serverFiles = c.serverFiles := rfl
  unfold NameList.list buildListBuffer
  dsimp only
  rw [hfiles]
  by_cases hnone : none ∈ n.files.contents
  · have hmapM : c.serverFiles.contents.mapM id = none := by
      rw [mapM_id_eq_none, ← hm.names]
      exact ho.none_mem_names.mpr hnone
    rw [if_pos hnone, hmapM]
    exact hm.fault.congr rfl id
  · obtain ⟨ws, hws⟩ : ∃ ws, c.serverFiles.contents.mapM id = some ws := by
      refine Option.ne_none_iff_exists'.mp fun h => hnone ?_
      rw [mapM_id_eq_none, ← hm.names] at h
      exact ho.none_mem_names.mp h
    have hread : ¬∃ p ∈ n.files.contents.filterMap id, n.heap.read p = none := by
      rintro ⟨p, hp, hr⟩
      exact ho.read_ne_none hp hr
    rw [if_neg hnone, if_neg hread, hws]
    exact hm.congr rfl id

/-! ### Runs -/

/-- The uses `ops` of the list lead from `g` to `g'`. -/
structure Uses (g g' : Globals) (ops : List ListOp) : Prop where
  recorded : g'.uses = g.uses ++ ops
  mirrors : ∀ n lost, Owned n lost → Mirrors n g → Mirrors (ops.foldl NameList.act n) g'

theorem Uses.refl {g g' : Globals} (hfiles : g'.serverFiles = g.serverFiles)
    (huses : g'.uses = g.uses) (hfault : g.fault = true → g'.fault = true) : Uses g g' [] :=
  ⟨huses.trans (List.append_nil _).symm, fun _ _ _ hm => hm.congr hfiles hfault⟩

theorem Uses.trans {g g' g'' : Globals} {ops ops' : List ListOp} (h : Uses g g' ops)
    (h' : Uses g' g'' ops') : Uses g g'' (ops ++ ops') := by
  refine ⟨?_, fun n lost ho hm => ?_⟩
  · rw [h'.recorded, h.recorded, List.append_assoc]
  · rw [List.foldl_append]
    exact h'.mirrors _ _ (ho.acts ops) (h.mirrors n lost ho hm)

theorem Uses.fault {g g' : Globals} {ops : List ListOp} (h : Uses g g' ops) :
    Uses g { g' with fault := true } ops :=
  ⟨h.recorded, fun n lost ho hm => (h.mirrors n lost ho hm).congr rfl fun _ => rfl⟩

theorem addFileToList_uses (name : Path) : Uses c.toGlobals (addFileToList c name).toGlobals
    [.add name c.script.alloc.1 (growth c)] := by
  refine ⟨?_, fun n lost ho hm => hm.add ho name⟩
  unfold addFileToList
  dsimp only
  split
  · rfl
  · rfl
  · split_ifs <;> rfl

theorem removeFileFromList_uses (name : Path) :
    Uses c.toGlobals (removeFileFromList c name).toGlobals [.remove name] := by
  refine ⟨?_, fun n lost ho hm => hm.remove ho name⟩
  unfold removeFileFromList
  dsimp only
  split <;> rfl

theorem buildListBuffer_uses : Uses c.toGlobals (buildListBuffer c).2.toGlobals [.list] := by
  refine ⟨?_, fun n lost ho hm => hm.list ho⟩
  unfold buildListBuffer
  dsimp only
  split <;> rfl

/-- The growth is there when memory is. -/
theorem growth_of_mem (hmem : c.script.mem = []) : c.script.alloc.1 = true ∧ growth c = true := by
  have halloc : c.script.alloc = (true, c.script) := by simp [Script.alloc, hmem]
  unfold growth
  rw [halloc, halloc]
  exact ⟨rfl, ite_self _⟩

/-- **Choosing a reply.** -/
theorem Choose.uses {st : Status} {msg : List Byte} (h : Choose c c' st msg) :
    ∃ ops, Uses c.toGlobals c'.toGlobals ops ∧ (MemOk c → ∀ op ∈ ops, op.Plenty) := by
  have hquiet : ∀ {d : Ctx}, d.serverFiles = c.serverFiles → d.uses = c.uses → d.fault = c.fault →
      ∃ ops, Uses c.toGlobals d.toGlobals ops ∧ (MemOk c → ∀ op ∈ ops, op.Plenty) :=
    fun hfiles huses hfault => ⟨[], .refl hfiles huses fun h => hfault.trans h, nofun⟩
  have hfind : ∀ {d : Ctx} {w : Path}, searchName (w.take 255) 0 c.serverFiles.contents ≠ .null →
      d.serverFiles = c.serverFiles → d.uses = c.uses ++ [.find (w.take 255)] →
      d.fault = c.fault → Uses c.toGlobals d.toGlobals [.find (w.take 255)] :=
    fun hnull hfiles huses hfault => ⟨huses, fun n lost ho hm =>
      (Mirrors.find (c := c) hm ho _ hnull).congr hfiles fun h => hfault.trans h⟩
  cases h with
  | deleteAbsent hl hf =>
    exact ⟨_, hfind (by rw [hf]; exact nofun) rfl rfl rfl,
      fun _ => List.forall_mem_singleton.mpr trivial⟩
  | deleteFailed hl hf hu =>
    exact ⟨_, hfind (by rw [hf]; exact nofun) rfl rfl rfl,
      fun _ => List.forall_mem_singleton.mpr trivial⟩
  | @deleted w i hl hf hu =>
    -- the search comes first, then `remove_file_from_list` makes its own
    let d := ((takeLine c (.delete w)).sysUnlink (takeLine c (.delete w)).filepath).2
    have hfound : Uses c.toGlobals d.toGlobals [.find (w.take 255)] :=
      hfind (by rw [hf]; exact nofun) rfl rfl rfl
    refine ⟨_, hfound.trans (removeFileFromList_uses _), fun _ => ?_⟩
    exact List.forall_mem_append.mpr
      ⟨List.forall_mem_singleton.mpr trivial, List.forall_mem_singleton.mpr trivial⟩
  | accepted hs hlen hr =>
    let d := (readExtra c).2.note (.accept c.client.filename)
    have hmem : d.script.mem = c.script.mem := Script.read_mem ..
    exact ⟨_, addFileToList_uses (c := d) c.client.filename, fun hok =>
      List.forall_mem_singleton.mpr (growth_of_mem (hmem.trans hok.mem))⟩
  | @listNoMemory k hs hv hn hb =>
    exact ⟨_, buildListBuffer_uses (c := sentLine c k),
      fun _ => List.forall_mem_singleton.mpr trivial⟩
  | _ => exact hquiet rfl rfl rfl

/-- **Each step.** -/
theorem Step.uses (h : Step c c') :
    ∃ ops, Uses c.toGlobals c'.toGlobals ops ∧ (MemOk c → ∀ op ∈ ops, op.Plenty) := by
  have hmono := h.fault_mono
  have hquiet : c'.serverFiles = c.serverFiles → c'.uses = c.uses →
      ∃ ops, Uses c.toGlobals c'.toGlobals ops ∧ (MemOk c → ∀ op ∈ ops, op.Plenty) :=
    fun hfiles huses => ⟨[], .refl hfiles huses hmono, nofun⟩
  cases h with
  | quiet h => cases h <;> exact hquiet rfl rfl
  | receive h => cases h <;> exact hquiet rfl rfl
  | begin h => cases h <;> exact hquiet rfl rfl
  | choose h => exact h.uses
  | send h =>
    cases h with
    | @lineList k buffer hs hv hn hb =>
      -- `build_list_buffer` has read every string
      have hlist := buildListBuffer_uses (c := sentLine c k)
      exact ⟨_, ⟨hlist.recorded, hlist.mirrors⟩,
        fun _ => List.forall_mem_singleton.mpr trivial⟩
    | loadSize hs hl =>
      refine hquiet ?_ ?_ <;>
      · rw [loadGetSize_of_zero hl]
        rfl
    | _ => exact hquiet rfl rfl
  | close h =>
    refine hquiet ?_ ?_
    · rw [closeAndCleanup_serverFiles]
      cases h <;> rfl
    · rw [closeAndCleanup_uses]
      cases h <;> rfl
  | @fault w hl hf =>
    refine ⟨[.find (w.take 255)], ⟨rfl, fun n lost ho hm => ?_⟩,
      fun _ => List.forall_mem_singleton.mpr trivial⟩
    show Mirrors (n.find (w.take 255)) _
    unfold NameList.find
    rw [Mirrors.search (g := c.toGlobals) hm ho, hf]
    exact hm.fault.congr rfl id

/-- And each chain of steps. -/
theorem Steps.uses (h : Steps c c') :
    ∃ ops, Uses c.toGlobals c'.toGlobals ops ∧ (MemOk c → ∀ op ∈ ops, op.Plenty) := by
  have hrun := Chain.invariant
    (P := fun d : Ctx => (∃ ops, Uses c.toGlobals d.toGlobals ops ∧
      (MemOk c → ∀ op ∈ ops, op.Plenty)) ∧ (MemOk c → MemOk d))
    (fun x y hxy ⟨⟨ops, hops, hplenty⟩, hmem⟩ => by
      obtain ⟨ops', hops', hplenty'⟩ := hxy.2.uses
      refine ⟨⟨ops ++ ops', hops.trans hops', fun hok => ?_⟩, fun hok => (hmem hok).step hxy.2⟩
      exact List.forall_mem_append.mpr ⟨hplenty hok, hplenty' (hmem hok)⟩) h
    ⟨⟨[], .refl rfl rfl id, nofun⟩, id⟩
  exact hrun.1

/-- **One action.** -/
theorem Server.uses_act {s : Server} (hmap : MapInv s) (a : Action) :
    ∃ ops, Uses s.toGlobals (s.act a).toGlobals ops ∧
      (FileServer.Plenty s → ∀ op ∈ ops, op.Plenty) := by
  have ht := Server.act_turn hmap a
  generalize s.act a = s' at ht
  have hmemOk : ∀ {conn : Conn} {i : ConnId}, s.conns[i]? = some conn →
      FileServer.Plenty s → MemOk (s.ctx conn) := fun hi hp =>
    ⟨(hp.conns _ (List.mem_of_getElem? hi)).1, hp.names⟩
  cases ht with
  | idle => exact ⟨[], .refl rfl rfl id, nofun⟩
  | accept => exact ⟨[], .refl rfl rfl id, nofun⟩
  | handle hget hi hlive hsteps =>
    obtain ⟨ops, hops, hplenty⟩ := hsteps.uses
    exact ⟨ops, hops, fun hp => hplenty (hmemOk hi hp)⟩
  | error hev hget hi hlive =>
    refine ⟨[], .refl ?_ ?_ fun h => ?_, nofun⟩
    · exact closeAndCleanup_serverFiles ..
    · exact closeAndCleanup_uses ..
    · exact (closeAndCleanup_fault ..).trans h
  | noMemory => exact ⟨[], .refl rfl rfl fun _ => rfl, nofun⟩
  | useAfterFree hev hget hi hlive hsteps =>
    obtain ⟨ops, hops, hplenty⟩ := hsteps.uses
    exact ⟨ops, hops.fault, fun hp => hplenty (hmemOk hi hp)⟩

/-- **A run.** -/
theorem Server.uses_run {s : Server} (hmap : MapInv s)
    (hok : ∀ conn ∈ s.conns, ConnOk (s.ctx conn)) (acts : List Action) :
    ∃ ops, Uses s.toGlobals (s.run acts).toGlobals ops ∧
      (FileServer.Plenty s → (∀ a ∈ acts, a.Plenty) → ∀ op ∈ ops, op.Plenty) := by
  induction acts generalizing s with
  | nil => exact ⟨[], .refl rfl rfl id, nofun⟩
  | cons a acts ih =>
    obtain ⟨ops, hops, hplenty⟩ := s.uses_act hmap a
    obtain ⟨ops', hops', hplenty'⟩ := ih (hmap.act a)
      (connOk_stable.turn (Server.act_turn hmap a) hok)
    refine ⟨ops ++ ops', hops.trans hops', fun hp ha => ?_⟩
    obtain ⟨ha, hacts⟩ := List.forall_mem_cons.mp ha
    exact List.forall_mem_append.mpr ⟨hplenty hp, hplenty' (hp.act hmap hok ha) hacts⟩

/-! ### The end of the process -/

/-- **The loop of `cleanup`** frees each string of the vector. -/
theorem NameList.foldl_free {ps : List (Option StringId)} (hnodup : (ps.filterMap id).Nodup)
    (hfreed : ∀ p ∈ ps.filterMap id, p ∉ n.heap.freed) :
    ps.foldl NameList.free n
      = { n with heap := ⟨n.heap.texts, n.heap.freed ++ ps.filterMap id⟩ } := by
  induction ps generalizing n with
  | nil => simp
  | cons e ps ih =>
    cases e with
    | none => exact ih hnodup hfreed
    | some p =>
      obtain ⟨hp, hps⟩ := List.nodup_cons.mp hnodup
      have hfree : n.free (some p) = { n with heap := ⟨n.heap.texts, n.heap.freed ++ [p]⟩ } :=
        if_neg (hfreed p (List.mem_cons_self ..))
      rw [List.foldl_cons, hfree, ih hps]
      · simp
      · intro q hq hmem
        rcases List.mem_append.mp hmem with hmem | hmem
        · exact hfreed q (List.mem_cons_of_mem _ hq) hmem
        · rw [List.mem_singleton.mp hmem] at hq
          exact hp hq

/-- **`cleanup`.** -/
theorem Owned.cleanup (ho : Owned n lost) :
    n.cleanup.dangling = false ∧ n.cleanup.heap.freed.Nodup ∧
      n.cleanup.heap.freed.length + lost = n.cleanup.heap.texts.length := by
  have hclean := NameList.foldl_free ho.nodup fun p hp => (ho.live p hp).2
  rw [NameList.cleanup, hclean]
  refine ⟨ho.sound, ?_, ?_⟩
  · show (n.heap.freed ++ n.owned).Nodup
    rw [List.nodup_append]
    refine ⟨ho.freed_nodup, ho.nodup, fun p hp q hq => ?_⟩
    rintro rfl
    exact (ho.live p hq).2 hp
  · show (n.heap.freed ++ n.owned).length + lost = n.heap.texts.length
    have hcount := ho.count
    rw [List.length_append]
    omega

theorem Owned.start : Owned .start 0 where
  nodup := List.nodup_nil
  live _ hp := nomatch hp
  freed_nodup := List.nodup_nil
  freed_lt _ hp := nomatch hp
  count := rfl
  sound := rfl

theorem Mirrors.boot (k : Disk) : Mirrors .start (Server.boot k).toGlobals := ⟨rfl, rfl, nofun⟩

/-- The list on the heap, behind all its uses. -/
def Server.nameList (s : Server) : NameList := s.uses.foldl NameList.act .start

/-- **Names are freed once.**  Whatever a run does to the list and whichever allocations fail, the
pointers point to the names of the server, and no freed string is read.  When `cleanup` has
run, no string was freed twice, and each was freed but those that `vector_push_back` had no
room for: none, if memory is to be had. -/
theorem names_freed_once (k : Disk) (acts : List Action) :
    Mirrors ((Server.boot k).run acts).nameList ((Server.boot k).run acts).toGlobals ∧
      ((Server.boot k).run acts).nameList.dangling = false ∧
      ((Server.boot k).run acts).nameList.cleanup.dangling = false ∧
      ((Server.boot k).run acts).nameList.cleanup.heap.freed.Nodup ∧
      ((Server.boot k).run acts).nameList.cleanup.heap.freed.length
          + NameList.start.losses ((Server.boot k).run acts).uses
        = ((Server.boot k).run acts).nameList.cleanup.heap.texts.length ∧
      ((∀ a ∈ acts, a.Plenty) → NameList.start.losses ((Server.boot k).run acts).uses = 0) := by
  obtain ⟨ops, hops, hplenty⟩ := Server.uses_run (MapInv.boot k)
    (fun conn hmem => by cases hmem) acts
  have huses : ((Server.boot k).run acts).uses = ops := hops.recorded
  have ho := Owned.start.acts ops
  rw [Nat.zero_add] at ho
  obtain ⟨hdangling, hnodup, hcount⟩ := ho.cleanup
  rw [Server.nameList, huses]
  refine ⟨hops.mirrors _ _ Owned.start (.boot k), ho.sound, hdangling, hnodup, hcount, fun ha => ?_⟩
  exact NameList.losses_eq_zero (hplenty (.boot k) ha)

end Lists

end FileServer
