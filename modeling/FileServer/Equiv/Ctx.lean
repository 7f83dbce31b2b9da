/-
  What each system call changes.

  One lemma for each part of a context and each call, so that later proofs never
  unfold a call: which parts it leaves alone (`toGlobals` stands for all the globals
  at once), and what it adds to the log.
-/
import FileServer.Handlers

namespace FileServer

/-! ### Scripts -/

section Scripts

variable (s : Script) (n : Nat)

@[simp] theorem Script.read_tx : (s.read n).2.tx = s.tx := by unfold Script.read; split <;> rfl
@[simp] theorem Script.read_fx : (s.read n).2.fx = s.fx := by unfold Script.read; split <;> rfl
@[simp] theorem Script.read_mem : (s.read n).2.mem = s.mem := by unfold Script.read; split <;> rfl
@[simp] theorem Script.write_rx : (s.write n).2.rx = s.rx := by unfold Script.write; split <;> rfl
@[simp] theorem Script.write_fx : (s.write n).2.fx = s.fx := by unfold Script.write; split <;> rfl
@[simp] theorem Script.write_mem : (s.write n).2.mem = s.mem := by
  unfold Script.write; split <;> rfl
@[simp] theorem Script.file_rx : s.file.2.rx = s.rx := by unfold Script.file; split <;> rfl
@[simp] theorem Script.file_tx : s.file.2.tx = s.tx := by unfold Script.file; split <;> rfl
@[simp] theorem Script.file_mem : s.file.2.mem = s.mem := by unfold Script.file; split <;> rfl
@[simp] theorem Script.alloc_rx : s.alloc.2.rx = s.rx := by unfold Script.alloc; split <;> rfl
@[simp] theorem Script.alloc_tx : s.alloc.2.tx = s.tx := by unfold Script.alloc; split <;> rfl
@[simp] theorem Script.alloc_fx : s.alloc.2.fx = s.fx := by unfold Script.alloc; split <;> rfl

theorem Script.file_fx_nil {s : Script} (h : s.fx = []) : s.file.2.fx = [] := by
  simp only [Script.file, h]

end Scripts

namespace Ctx

variable (c : Ctx)

/-! ### Assignments and the log -/

section Assign

variable (f : Client → Client) (x : Call) (i : Interest)

@[simp] theorem setClient_client : (c.setClient f).client = f c.client := rfl
@[simp] theorem setClient_script : (c.setClient f).script = c.script := rfl
@[simp] theorem setClient_interest : (c.setClient f).interest = c.interest := rfl
@[simp] theorem setClient_freed : (c.setClient f).freed = c.freed := rfl
@[simp] theorem setClient_log : (c.setClient f).log = c.log := rfl
@[simp] theorem setClient_toGlobals : (c.setClient f).toGlobals = c.toGlobals := rfl

@[simp] theorem note_client : (c.note x).client = c.client := rfl
@[simp] theorem note_script : (c.note x).script = c.script := rfl
@[simp] theorem note_interest : (c.note x).interest = c.interest := rfl
@[simp] theorem note_freed : (c.note x).freed = c.freed := rfl
@[simp] theorem note_log : (c.note x).log = c.log ++ [x] := rfl
@[simp] theorem note_toGlobals : (c.note x).toGlobals = c.toGlobals := rfl

@[simp] theorem modifyEventLoop_client : (c.modifyEventLoop i).client = c.client := rfl
@[simp] theorem modifyEventLoop_script : (c.modifyEventLoop i).script = c.script := rfl
@[simp] theorem modifyEventLoop_interest : (c.modifyEventLoop i).interest = some i := rfl
@[simp] theorem modifyEventLoop_freed : (c.modifyEventLoop i).freed = c.freed := rfl
@[simp] theorem modifyEventLoop_log : (c.modifyEventLoop i).log = c.log ++ [.modify i] := rfl
@[simp] theorem modifyEventLoop_toGlobals : (c.modifyEventLoop i).toGlobals = c.toGlobals := rfl

@[simp] theorem closeFile_client : c.closeFile.client = { c.client with fileFd := none } := rfl
@[simp] theorem closeFile_script : c.closeFile.script = c.script := rfl
@[simp] theorem closeFile_interest : c.closeFile.interest = c.interest := rfl
@[simp] theorem closeFile_freed : c.closeFile.freed = c.freed := rfl
@[simp] theorem closeFile_log : c.closeFile.log = c.log := rfl
@[simp] theorem closeFile_toGlobals : c.closeFile.toGlobals = c.toGlobals := rfl

end Assign

/-! ### Socket -/

section Socket

variable (k : Nat) (bs : List Byte)

theorem sysRead_fst : (c.sysRead k).1 = (c.script.read k).1 := rfl
@[simp] theorem sysRead_client : (c.sysRead k).2.client = c.client := rfl
@[simp] theorem sysRead_script : (c.sysRead k).2.script = (c.script.read k).2 := rfl
@[simp] theorem sysRead_interest : (c.sysRead k).2.interest = c.interest := rfl
@[simp] theorem sysRead_freed : (c.sysRead k).2.freed = c.freed := rfl
@[simp] theorem sysRead_log : (c.sysRead k).2.log = c.log ++ [.read (c.sysRead k).1] := rfl
@[simp] theorem sysRead_toGlobals : (c.sysRead k).2.toGlobals = c.toGlobals := rfl

theorem sysWrite_fst : (c.sysWrite bs).1 = (c.script.write bs.length).1 := rfl
@[simp] theorem sysWrite_client : (c.sysWrite bs).2.client = c.client := rfl
@[simp] theorem sysWrite_script : (c.sysWrite bs).2.script = (c.script.write bs.length).2 := rfl
@[simp] theorem sysWrite_interest : (c.sysWrite bs).2.interest = c.interest := rfl
@[simp] theorem sysWrite_freed : (c.sysWrite bs).2.freed = c.freed := rfl
@[simp] theorem sysWrite_log :
    (c.sysWrite bs).2.log = c.log ++ [.write bs (c.sysWrite bs).1] := rfl
@[simp] theorem sysWrite_toGlobals : (c.sysWrite bs).2.toGlobals = c.toGlobals := rfl

/-- A write moves at most what it was given. -/
theorem sysWrite_le {n : Nat} (h : (c.sysWrite bs).1 = .wrote n) : n ≤ bs.length := by
  rw [sysWrite_fst, Script.write] at h
  split at h
  · cases h
  · cases h
    exact Nat.min_le_right _ _
  · cases h
  · cases h

end Socket

/-! ### Files -/

section Files

variable (p : Path) (h : Handle) (bs : List Byte) (count off : Nat)

@[simp] theorem sysOpenWrite_client : (c.sysOpenWrite p).2.client = c.client := rfl
@[simp] theorem sysOpenWrite_script : (c.sysOpenWrite p).2.script = c.script.file.2 := rfl
@[simp] theorem sysOpenWrite_interest : (c.sysOpenWrite p).2.interest = c.interest := rfl
@[simp] theorem sysOpenWrite_freed : (c.sysOpenWrite p).2.freed = c.freed := rfl
@[simp] theorem sysOpenWrite_log :
    (c.sysOpenWrite p).2.log = c.log ++ [.openWrite p (c.sysOpenWrite p).1] := rfl
@[simp] theorem sysOpenWrite_serverFiles :
    (c.sysOpenWrite p).2.serverFiles = c.serverFiles := rfl
@[simp] theorem sysOpenWrite_fdToClient : (c.sysOpenWrite p).2.fdToClient = c.fdToClient := rfl
@[simp] theorem sysOpenWrite_fault : (c.sysOpenWrite p).2.fault = c.fault := rfl

/-- `open` for writing is as the file system decides, unless the call was made to fail. -/
theorem sysOpenWrite_cases :
    ((c.sysOpenWrite p).1 = none ∧ (c.sysOpenWrite p).2.disk = c.disk ∧ c.script.file.1 = .fail) ∨
      ((c.sysOpenWrite p).1 = (c.disk.openWrite p).1 ∧
        (c.sysOpenWrite p).2.disk = (c.disk.openWrite p).2) := by
  unfold sysOpenWrite
  dsimp only
  split
  · rename_i hfail
    exact .inl ⟨rfl, rfl, hfail⟩
  · exact .inr ⟨rfl, rfl⟩

@[simp] theorem sysOpenRead_client : (c.sysOpenRead p).2.client = c.client := rfl
@[simp] theorem sysOpenRead_script : (c.sysOpenRead p).2.script = c.script.file.2 := rfl
@[simp] theorem sysOpenRead_interest : (c.sysOpenRead p).2.interest = c.interest := rfl
@[simp] theorem sysOpenRead_freed : (c.sysOpenRead p).2.freed = c.freed := rfl
@[simp] theorem sysOpenRead_log :
    (c.sysOpenRead p).2.log = c.log ++ [.openRead p (c.sysOpenRead p).1] := rfl
@[simp] theorem sysOpenRead_toGlobals : (c.sysOpenRead p).2.toGlobals = c.toGlobals := rfl

@[simp] theorem sysFstat_client : (c.sysFstat h).2.client = c.client := rfl
@[simp] theorem sysFstat_script : (c.sysFstat h).2.script = c.script.file.2 := rfl
@[simp] theorem sysFstat_interest : (c.sysFstat h).2.interest = c.interest := rfl
@[simp] theorem sysFstat_freed : (c.sysFstat h).2.freed = c.freed := rfl
@[simp] theorem sysFstat_log : (c.sysFstat h).2.log = c.log := rfl
@[simp] theorem sysFstat_toGlobals : (c.sysFstat h).2.toGlobals = c.toGlobals := rfl

@[simp] theorem sysPread_client : (c.sysPread h count off).2.client = c.client := rfl
@[simp] theorem sysPread_script : (c.sysPread h count off).2.script = c.script.file.2 := rfl
@[simp] theorem sysPread_interest : (c.sysPread h count off).2.interest = c.interest := rfl
@[simp] theorem sysPread_freed : (c.sysPread h count off).2.freed = c.freed := rfl
@[simp] theorem sysPread_log : (c.sysPread h count off).2.log = c.log := rfl
@[simp] theorem sysPread_toGlobals : (c.sysPread h count off).2.toGlobals = c.toGlobals := rfl

@[simp] theorem sysPwrite_client : (c.sysPwrite h bs off).2.client = c.client := rfl
@[simp] theorem sysPwrite_script : (c.sysPwrite h bs off).2.script = c.script.file.2 := rfl
@[simp] theorem sysPwrite_interest : (c.sysPwrite h bs off).2.interest = c.interest := rfl
@[simp] theorem sysPwrite_freed : (c.sysPwrite h bs off).2.freed = c.freed := rfl
@[simp] theorem sysPwrite_log : (c.sysPwrite h bs off).2.log = c.log := rfl
@[simp] theorem sysPwrite_serverFiles :
    (c.sysPwrite h bs off).2.serverFiles = c.serverFiles := rfl
@[simp] theorem sysPwrite_fdToClient : (c.sysPwrite h bs off).2.fdToClient = c.fdToClient := rfl
@[simp] theorem sysPwrite_fault : (c.sysPwrite h bs off).2.fault = c.fault := rfl

/-- `pwrite` stores a prefix of its argument, or nothing. -/
theorem sysPwrite_disk :
    (c.sysPwrite h bs off).2.disk = c.disk ∨
      ∃ n, (c.sysPwrite h bs off).2.disk = c.disk.pwrite h (bs.take n) off := by
  unfold sysPwrite
  dsimp only
  split
  · exact .inr ⟨bs.length, by rw [List.take_length]⟩
  · exact .inr ⟨_, rfl⟩
  · exact .inl rfl

/-- `pwrite` stores all of its argument when it says so. -/
theorem sysPwrite_disk_full (hw : (c.sysPwrite h bs off).1 = some bs.length) :
    (c.sysPwrite h bs off).2.disk = c.disk.pwrite h bs off := by
  unfold sysPwrite at hw ⊢
  dsimp only at hw ⊢
  generalize c.script.file.1 = r at hw ⊢
  cases r with
  | ok => rfl
  | short n =>
    simp only [Option.some.injEq] at hw
    simp only
    rw [List.take_of_length_le (by omega)]
  | fail => cases hw

@[simp] theorem sysUnlink_client : (c.sysUnlink p).2.client = c.client := rfl
@[simp] theorem sysUnlink_script : (c.sysUnlink p).2.script = c.script.file.2 := rfl
@[simp] theorem sysUnlink_interest : (c.sysUnlink p).2.interest = c.interest := rfl
@[simp] theorem sysUnlink_freed : (c.sysUnlink p).2.freed = c.freed := rfl
@[simp] theorem sysUnlink_log :
    (c.sysUnlink p).2.log = c.log ++ [.unlink p (c.sysUnlink p).1] := rfl
@[simp] theorem sysUnlink_serverFiles : (c.sysUnlink p).2.serverFiles = c.serverFiles := rfl
@[simp] theorem sysUnlink_fdToClient : (c.sysUnlink p).2.fdToClient = c.fdToClient := rfl
@[simp] theorem sysUnlink_fault : (c.sysUnlink p).2.fault = c.fault := rfl

/-- `unlink` is as the file system decides, unless the call was made to fail. -/
theorem sysUnlink_cases :
    ((c.sysUnlink p).1 = false ∧ (c.sysUnlink p).2.disk = c.disk ∧ c.script.file.1 = .fail) ∨
      ((c.sysUnlink p).1 = (c.disk.unlink p).1 ∧ (c.sysUnlink p).2.disk = (c.disk.unlink p).2) := by
  unfold sysUnlink
  dsimp only
  split
  · rename_i hfail
    exact .inl ⟨rfl, rfl, hfail⟩
  · exact .inr ⟨rfl, rfl⟩

@[simp] theorem sysAlloc_client : c.sysAlloc.2.client = c.client := rfl
@[simp] theorem sysAlloc_script : c.sysAlloc.2.script = c.script.alloc.2 := rfl
@[simp] theorem sysAlloc_interest : c.sysAlloc.2.interest = c.interest := rfl
@[simp] theorem sysAlloc_freed : c.sysAlloc.2.freed = c.freed := rfl
@[simp] theorem sysAlloc_log : c.sysAlloc.2.log = c.log := rfl
@[simp] theorem sysAlloc_toGlobals : c.sysAlloc.2.toGlobals = c.toGlobals := rfl

end Files

end Ctx

end FileServer
