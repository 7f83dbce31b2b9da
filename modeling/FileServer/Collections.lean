/-
  The vector and the dictionary of `collections.c`.

  Both are a counted prefix of an allocated array: `data`/`entries` is the array,
  `size` the part in use, `capacity` the part allocated.  An element is a pointer,
  `none` being `NULL`.  Whether a growing `realloc` succeeds is an argument of the
  functions that may call it.  `destroyed` records, oldest first, what was handed to
  a vector's destructor; no function reads it.
-/
import Mathlib.Logic.Function.Basic

namespace FileServer

universe u

/-- `INITIAL_CAPACITY`. -/
def initialCapacity : Nat := 8

/-- `GROWTH_FACTOR`. -/
def growthFactor : Nat := 2

/-- `memmove` within an array: cells `dst, …, dst + n - 1` become the old cells from `src` on. -/
def moveCells {β : Type u} (cells : Nat → β) (dst src n : Nat) : Nat → β := fun i =>
  if dst ≤ i ∧ i < dst + n then cells (src + (i - dst)) else cells i

/-! ### Vector -/

/-- `struct vector`. -/
structure FssVector (α : Type u) where
  /-- The array; the cells from `size` on hold no elements. -/
  data : Nat → Option α
  size : Nat
  capacity : Nat
  /-- Whether a destructor was given to `vector_create`. -/
  destructor : Bool
  /-- What the destructor was called on so far. -/
  destroyed : List (Option α)

variable {α : Type u}

/-- `vector_create`, when both of its allocations succeed. -/
def vectorCreate (destructor : Bool) : FssVector α :=
  ⟨fun _ => none, 0, initialCapacity, destructor, []⟩

/-- `vector_size`. -/
def vectorSize (this : FssVector α) : Nat := this.size

/-- `vector_get`; also `NULL` when the index is out of range. -/
def vectorGet (this : FssVector α) (n : Nat) : Option α :=
  if n ≥ this.size then none else this.data n

/-- `vector_push_back` calls `realloc` exactly on a full array. -/
def FssVector.full (this : FssVector α) : Bool := this.size == this.capacity

/-- `vector_push_back`; `grow` says whether `realloc` succeeds where it is called. -/
def vectorPushBack (this : FssVector α) (element : Option α) (grow : Bool) : FssVector α :=
  if this.full then
    if grow then
      { this with
        data := Function.update this.data this.size element
        size := this.size + 1
        capacity := this.capacity * growthFactor }
    else this
  else
    { this with data := Function.update this.data this.size element, size := this.size + 1 }

/-- `vector_erase`. -/
def vectorErase (this : FssVector α) (position : Nat) : FssVector α :=
  if position ≥ this.size then this
  else
    { this with
      data :=
        if position + 1 < this.size then
          moveCells this.data position (position + 1) (this.size - position - 1)
        else this.data
      size := this.size - 1
      destroyed :=
        if this.destructor then this.destroyed ++ [this.data position] else this.destroyed }

/-- `vector_destroy`: the calls of the destructor it ends with. -/
def vectorDestroy (this : FssVector α) : List (Option α) :=
  if this.destructor then this.destroyed ++ (List.range this.size).map this.data
  else this.destroyed

/-- The elements in order, as a loop over `vector_get` reads them. -/
def FssVector.contents (this : FssVector α) : List (Option α) :=
  (List.range this.size).map (vectorGet this)

/-! ### Dictionary -/

/-- `struct dictionary_entry`. -/
structure DictionaryEntry (α : Type u) where
  key : Int
  value : Option α

/-- `struct dictionary`. -/
structure FssDictionary (α : Type u) where
  entries : Nat → DictionaryEntry α
  size : Nat
  capacity : Nat

/-- `int_to_shallow_dictionary_create`, when both of its allocations succeed. -/
def dictionaryCreate : FssDictionary α := ⟨fun _ => ⟨0, none⟩, 0, initialCapacity⟩

/-- The search that `dictionary_set`, `dictionary_get` and `dictionary_remove` share: the first
of the `n` entries from index `i` on whose key is `key`. -/
def findKey (entries : Nat → DictionaryEntry α) (key : Int) : Nat → Nat → Option Nat
  | 0, _ => none
  | n + 1, i => if (entries i).key = key then some i else findKey entries key n (i + 1)

/-- The index at which a search of the whole dictionary stops. -/
def FssDictionary.find (this : FssDictionary α) (key : Int) : Option Nat :=
  findKey this.entries key this.size 0

/-- `dictionary_set` of a new key calls `realloc` exactly on a full array. -/
def FssDictionary.full (this : FssDictionary α) : Bool := this.size == this.capacity

/-- `dictionary_set`; `grow` says whether `realloc` succeeds where it is called. -/
def dictionarySet (this : FssDictionary α) (key : Int) (value : Option α) (grow : Bool) :
    FssDictionary α :=
  match this.find key with
  | some i => { this with entries := Function.update this.entries i ⟨(this.entries i).key, value⟩ }
  | none =>
    if this.full then
      if grow then
        { entries := Function.update this.entries this.size ⟨key, value⟩
          size := this.size + 1
          capacity := this.capacity * growthFactor }
      else this
    else
      { this with
        entries := Function.update this.entries this.size ⟨key, value⟩
        size := this.size + 1 }

/-- `dictionary_get`. -/
def dictionaryGet (this : FssDictionary α) (key : Int) : Option α :=
  match this.find key with
  | some i => (this.entries i).value
  | none => none

/-- `dictionary_remove`. -/
def dictionaryRemove (this : FssDictionary α) (key : Int) : FssDictionary α :=
  match this.find key with
  | some i =>
    { this with
      entries :=
        if i + 1 < this.size then moveCells this.entries i (i + 1) (this.size - i - 1)
        else this.entries
      size := this.size - 1 }
  | none => this

/-- The entries in order. -/
def FssDictionary.contents (this : FssDictionary α) : List (DictionaryEntry α) :=
  (List.range this.size).map this.entries

end FileServer
