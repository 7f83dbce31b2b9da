/-
  Which names GET serves.

  GET asks the directory and DELETE asks the list.  The two agree on a name where its
  path leads to no directory, and the list holds the name exactly when the file is there
  (`followsList_iff_inStep`).  They disagree during an upload of a new name, after one
  that left its file behind, and on names that are paths.
-/
import FileServer.Deletion

namespace FileServer

/-- `delete_request` finds the name. -/
def Found (g : Globals) (w : Path) : Prop := ∃ i, searchName w 0 g.serverFiles.contents = .found i

theorem Found.listed {g : Globals} {w : Path} (h : Found g w) :
    w ∈ listedNames g.serverFiles := by
  obtain ⟨i, hi⟩ := h
  exact mem_listedNames.mpr (searchName_found_idxOf hi).1

/-- The next two file operations fail for no other reason than what the file system holds. -/
def FilesOk (c : Ctx) : Prop := c.script.file.1 ≠ .fail ∧ c.script.file.2.file.1 ≠ .fail

section Get

variable {c : Ctx}

/-- GET is answered OK where there is something to open. -/
theorem startSendGet_replies (hverb : c.client.requestVerb = .get) (hfiles : FilesOk c) :
    (startSendGet c).replies = c.replies ++
      [if (c.disk.openRead c.filepath).isSome then (.ok, []) else (.error, errNoSuchFile)] := by
  obtain ⟨hopen, hstat⟩ := hfiles
  have hput : c.client.requestVerb ≠ .put := by
    rw [hverb]
    decide
  have hlist : c.client.requestVerb ≠ .list := by
    rw [hverb]
    decide
  have hfst : (c.sysOpenRead c.filepath).1 = c.disk.openRead c.filepath := if_neg hopen
  have hline : ∀ {d : Ctx} {h : Option Handle}, d.log = c.log ++ [.openRead c.filepath h] →
      d.replies = c.replies := fun h => replies_of_single h rfl
  unfold startSendGet
  dsimp only
  rw [hfst]
  cases ho : c.disk.openRead c.filepath with
  | none =>
    dsimp only
    rw [(prepareAndSendResponse_unchanged _ _ .error errNoSuchFile).2, hline (by simp; rfl)]
    · rfl
    · exact hput
    · exact hlist
  | some f =>
    have hsize : (((c.sysOpenRead c.filepath).2.setClient fun k =>
        { k with fileFd := some f }).sysFstat f).1 = some (c.disk.size f) := if_neg hstat
    dsimp only
    rw [hsize]
    dsimp only
    rw [(prepareAndSendResponse_unchanged _ _ .ok []).2, hline (by simp; rfl)]
    · rfl
    · exact hput
    · exact hlist

end Get

/-! ### The list and the directory -/

theorem Disk.openRead_isSome_entry {k : Disk} {p : Path} {l : Loc}
    (h : k.tree.resolve p = .entry l) :
    (k.openRead p).isSome = (k.slot l).link.isSome := by
  simp only [Disk.openRead, h, Option.isSome_map]

/-- A connection that asks for a file. -/
def asking (s : Server) : Ctx := s.ctx
  { client := { clientCreate 6 with requestVerb := .get }
    script := ⟨[], [], [], []⟩
    interest := some .read
    freed := false
    log := [] }

end FileServer
