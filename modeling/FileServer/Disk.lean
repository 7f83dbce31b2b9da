/-
  The part of a POSIX file system that the server works on.

  The directories are fixed while the server runs: it creates and removes none.
  `Tree` holds them, with the temporary directory as an empty-of-directories child
  of the working directory.  A path is resolved component by component; its target
  is a directory, or a named entry of a directory, or it has none.

  A regular file is identified by the entry it was created at and the number of
  files created there before it, its generation, so that an unlinked file that is
  still open keeps its contents and a file created later under the same name is
  another file.
-/
import FileServer.Bytes
import Mathlib.Logic.Function.Basic

namespace FileServer

/-- A file name or a path, without its final NUL. -/
abbrev Path := List Byte

/-! ### Paths -/

/-- The components of a path, empty ones included: what stands between its slashes. -/
def components : Path → List Path
  | [] => [[]]
  | b :: p =>
    if b = slash then [] :: components p
    else
      match components p with
      | [] => [[b]]
      | c :: cs => (b :: c) :: cs

/-- A name that can stand for an entry of a directory: a single non-empty component that is
neither `.` nor `..`. -/
def EntryName (w : Path) : Prop :=
  w ≠ [] ∧ slash ∉ w ∧ w ≠ [dot] ∧ w ≠ [dot, dot]

instance (w : Path) : Decidable (EntryName w) := inferInstanceAs (Decidable (_ ∧ _ ∧ _ ∧ _))

/-- A directory. -/
abbrev DirId := Nat

/-- The directories around the temporary directory.  No entry is a symbolic link. -/
structure Tree where
  /-- The working directory of the server. -/
  cwd : DirId
  /-- The directory that `mkdtemp` created. -/
  temp : DirId
  /-- `temp_dir`, the name it was created under. -/
  tempName : Path
  /-- The directory that `..` denotes. -/
  parent : DirId → DirId
  /-- The subdirectory of a name. -/
  sub : DirId → Path → Option DirId
  /-- `st_size` of a directory. -/
  dirSize : DirId → Nat
  tempName_entry : EntryName tempName
  tempName_length : tempName.length = 6
  sub_cwd : sub cwd tempName = some temp
  sub_temp : ∀ w, sub temp w = none
  temp_ne_cwd : temp ≠ cwd

/-- An entry of a directory. -/
abbrev Loc := DirId × Path

/-- What a path denotes. -/
inductive Target
  /-- An existing directory. -/
  | dir (d : DirId)
  /-- The entry of this name in an existing directory, which is no directory itself. -/
  | entry (l : Loc)
  /-- Nothing: a component on the way is no directory. -/
  | none
  deriving DecidableEq

/-- Follow the components of a path from the directory `d`. -/
def Tree.walk (t : Tree) (d : DirId) : List Path → Target
  | [] => .dir d
  | c :: cs =>
    if c = [] ∨ c = [dot] then t.walk d cs
    else if c = [dot, dot] then t.walk (t.parent d) cs
    else
      match t.sub d c with
      | some d' => t.walk d' cs
      | none => if cs = [] then .entry (d, c) else .none

/-- POSIX path resolution of a relative path in the working directory.  A trailing slash asks
for a directory: it leaves an empty last component. -/
def Tree.resolve (t : Tree) (p : Path) : Target := t.walk t.cwd (components p)

/-! ### Files -/

/-- What is stored at an entry: the contents of the files created there, by generation, and the
generation that the entry links to, if any. -/
@[ext] structure Slot where
  link : Option Nat
  files : List (List Byte)
  link_lt : ∀ gen ∈ link, gen < files.length

namespace Slot

/-- Replace the contents of one generation. -/
def write (s : Slot) (gen : Nat) (bs : List Byte) : Slot where
  link := s.link
  files := s.files.set gen bs
  link_lt := by simpa using s.link_lt

/-- Create an empty file and link it. -/
def create (s : Slot) : Slot where
  link := some s.files.length
  files := s.files ++ [[]]
  link_lt := by simp

/-- Remove the link. -/
def remove (s : Slot) : Slot where
  link := none
  files := s.files
  link_lt := by simp

end Slot

/-- An open file: a generation of an entry, or a directory opened for reading. -/
inductive Handle
  | file (l : Loc) (gen : Nat)
  | dir (d : DirId)
  deriving DecidableEq

/-- The file system. -/
structure Disk where
  tree : Tree
  slot : Loc → Slot

namespace Disk

/-- The contents of a generation of an entry. -/
def content (k : Disk) (l : Loc) (gen : Nat) : List Byte := (k.slot l).files.getD gen []

/-- The contents of the regular file linked at an entry. -/
def lookup (k : Disk) (l : Loc) : Option (List Byte) := (k.slot l).link.map (k.content l)

/-- The regular file that a path denotes. -/
def read (k : Disk) (p : Path) : Option (List Byte) :=
  match k.tree.resolve p with
  | .entry l => k.lookup l
  | _ => none

/-- Replace what is stored at one entry. -/
def setSlot (k : Disk) (l : Loc) (s : Slot) : Disk := { k with slot := Function.update k.slot l s }

/-- Replace the contents of one generation. -/
def setContent (k : Disk) (l : Loc) (gen : Nat) (bs : List Byte) : Disk :=
  k.setSlot l ((k.slot l).write gen bs)

/-- `open(p, O_WRONLY | O_CREAT | O_TRUNC, …)`: empties the file, or creates it. -/
def openWrite (k : Disk) (p : Path) : Option Handle × Disk :=
  match k.tree.resolve p with
  | .entry l =>
    match (k.slot l).link with
    | some gen => (some (.file l gen), k.setContent l gen [])
    | none => (some (.file l (k.slot l).files.length), k.setSlot l (k.slot l).create)
  | _ => (none, k)

/-- `open(p, O_RDONLY)`; it opens directories too. -/
def openRead (k : Disk) (p : Path) : Option Handle :=
  match k.tree.resolve p with
  | .entry l => (k.slot l).link.map (.file l)
  | .dir d => some (.dir d)
  | .none => none

/-- `unlink(p)`, and whether it succeeded. -/
def unlink (k : Disk) (p : Path) : Bool × Disk :=
  match k.tree.resolve p with
  | .entry l =>
    match (k.slot l).link with
    | some _ => (true, k.setSlot l (k.slot l).remove)
    | none => (false, k)
  | _ => (false, k)

/-- `st_size` as `fstat` gives it. -/
def size (k : Disk) : Handle → Nat
  | .file l gen => (k.content l gen).length
  | .dir d => k.tree.dirSize d

/-- `pread` of at most `count` bytes; it fails on a directory. -/
def pread (k : Disk) (h : Handle) (count off : Nat) : Option (List Byte) :=
  match h with
  | .file l gen => some (((k.content l gen).drop off).take count)
  | .dir _ => none

end Disk

/-- The contents of a file after `bs` was written at `off`; a gap before `off` reads as NULs. -/
def overwrite (old : List Byte) (off : Nat) (bs : List Byte) : List Byte :=
  old.take off ++ List.replicate (off - old.length) 0 ++ bs ++ old.drop (off + bs.length)

/-- `pwrite` of all of `bs`. -/
def Disk.pwrite (k : Disk) (h : Handle) (bs : List Byte) (off : Nat) : Disk :=
  match h with
  | .file l gen => k.setContent l gen (overwrite (k.content l gen) off bs)
  | .dir _ => k

/-! ### The smallest file system -/

/-- A working directory that contains the temporary directory and nothing else. -/
def bareTree : Tree where
  cwd := 0
  temp := 1
  tempName := ascii "aaaaaa"
  parent := fun _ => 0
  sub := fun d w => if d = 0 ∧ w = ascii "aaaaaa" then some 1 else none
  dirSize := fun _ => 4096
  tempName_entry := by decide
  tempName_length := by decide
  sub_cwd := by decide
  sub_temp := fun w => if_neg (by simp)
  temp_ne_cwd := by decide

/-- The file system on it without any file. -/
def bareDisk : Disk where
  tree := bareTree
  slot := fun _ => ⟨none, [], by simp⟩

end FileServer
