/-
  What a step leaves alone.

  First the functions that branch inside (`close_and_cleanup` and those on the list
  of names), part by part; then, for one step, what can happen to each part of a
  context: the descriptor, the log, the map, the list, the slots of the disk.  Only
  an upload, a DELETE and a close touch the disk, and only at the entry that the
  connection's own path denotes.
-/
import FileServer.Equiv.Steps
import FileServer.Equiv.Disk
import FileServer.Equiv.Collections

namespace FileServer

/-! ### Closing -/

/-- `close_and_cleanup` calls `unlink`. -/
def Client.Unlinks (k : Client) : Prop := k.requestVerb = .put ∧ k.state ≠ .done

instance (k : Client) : Decidable k.Unlinks := inferInstanceAs (Decidable (_ ∧ _))

/-- `close_and_cleanup` before its `unlink`. -/
def startClose (k : Ctx) : Ctx := { k with interest := none }.note .close

/-- `close_and_cleanup` after its `unlink`. -/
def finishClose (k : Ctx) : Ctx :=
  clientDestroy { k with fdToClient := dictionaryRemove k.fdToClient k.client.fd }

section Closing

variable (k : Ctx)

theorem closeAndCleanup_eq :
    closeAndCleanup k = finishClose
      (if k.client.Unlinks then ((startClose k).sysUnlink k.filepath).2 else startClose k) := rfl

@[simp] theorem closeAndCleanup_client :
    (closeAndCleanup k).client = { k.client with fileFd := none, listBuf := none } := by
  rw [closeAndCleanup_eq]
  split_ifs <;> rfl

@[simp] theorem closeAndCleanup_interest : (closeAndCleanup k).interest = none := by
  rw [closeAndCleanup_eq]
  split_ifs <;> rfl

@[simp] theorem closeAndCleanup_freed : (closeAndCleanup k).freed = true := rfl

@[simp] theorem closeAndCleanup_serverFiles :
    (closeAndCleanup k).serverFiles = k.serverFiles := by
  rw [closeAndCleanup_eq]
  split_ifs <;> rfl

@[simp] theorem closeAndCleanup_uses : (closeAndCleanup k).uses = k.uses := by
  rw [closeAndCleanup_eq]
  split_ifs <;> rfl

@[simp] theorem closeAndCleanup_fault : (closeAndCleanup k).fault = k.fault := by
  rw [closeAndCleanup_eq]
  split_ifs <;> rfl

@[simp] theorem closeAndCleanup_fdToClient :
    (closeAndCleanup k).fdToClient = dictionaryRemove k.fdToClient k.client.fd := by
  rw [closeAndCleanup_eq]
  split_ifs <;> rfl

theorem closeAndCleanup_disk :
    (closeAndCleanup k).disk
      = if k.client.Unlinks then (k.sysUnlink k.filepath).2.disk else k.disk := by
  rw [closeAndCleanup_eq]
  split_ifs <;> rfl

/-- The calls that closing leaves in the log. -/
theorem closeAndCleanup_log :
    (closeAndCleanup k).log = k.log ++ .close ::
      if k.client.Unlinks then [.unlink k.filepath (k.sysUnlink k.filepath).1] else [] := by
  rw [closeAndCleanup_eq]
  split_ifs
  · exact List.append_assoc ..
  · rfl

end Closing

/-! ### The list of names -/

section Names

variable (c : Ctx) (name : Path)

theorem removeFileFromList_eq :
    removeFileFromList c name
      = { c with
          serverFiles := (removeFileFromList c name).serverFiles
          uses := (removeFileFromList c name).uses
          fault := (removeFileFromList c name).fault } := by
  unfold removeFileFromList
  dsimp only
  split <;> rfl

theorem addFileToList_eq :
    addFileToList c name
      = { c with
          script := (addFileToList c name).script
          serverFiles := (addFileToList c name).serverFiles
          uses := (addFileToList c name).uses
          fault := (addFileToList c name).fault } := by
  unfold addFileToList
  dsimp only
  split
  · rfl
  · rfl
  · dsimp only
    split_ifs <;> rfl

theorem buildListBuffer_eq :
    (buildListBuffer c).2
      = { c with
          script := (buildListBuffer c).2.script
          uses := (buildListBuffer c).2.uses
          fault := (buildListBuffer c).2.fault } := by
  unfold buildListBuffer
  dsimp only
  split <;> rfl

@[simp] theorem removeFileFromList_client : (removeFileFromList c name).client = c.client := by
  rw [removeFileFromList_eq]
@[simp] theorem removeFileFromList_script : (removeFileFromList c name).script = c.script := by
  rw [removeFileFromList_eq]
@[simp] theorem removeFileFromList_interest :
    (removeFileFromList c name).interest = c.interest := by rw [removeFileFromList_eq]
@[simp] theorem removeFileFromList_log : (removeFileFromList c name).log = c.log := by
  rw [removeFileFromList_eq]
@[simp] theorem removeFileFromList_disk : (removeFileFromList c name).disk = c.disk := by
  rw [removeFileFromList_eq]
@[simp] theorem removeFileFromList_fdToClient :
    (removeFileFromList c name).fdToClient = c.fdToClient := by rw [removeFileFromList_eq]

@[simp] theorem addFileToList_client : (addFileToList c name).client = c.client := by
  rw [addFileToList_eq]
@[simp] theorem addFileToList_interest : (addFileToList c name).interest = c.interest := by
  rw [addFileToList_eq]
@[simp] theorem addFileToList_log : (addFileToList c name).log = c.log := by
  rw [addFileToList_eq]
@[simp] theorem addFileToList_disk : (addFileToList c name).disk = c.disk := by
  rw [addFileToList_eq]
@[simp] theorem addFileToList_fdToClient :
    (addFileToList c name).fdToClient = c.fdToClient := by rw [addFileToList_eq]

@[simp] theorem buildListBuffer_client : (buildListBuffer c).2.client = c.client := by
  rw [buildListBuffer_eq]
@[simp] theorem buildListBuffer_interest : (buildListBuffer c).2.interest = c.interest := by
  rw [buildListBuffer_eq]
@[simp] theorem buildListBuffer_log : (buildListBuffer c).2.log = c.log := by
  rw [buildListBuffer_eq]
@[simp] theorem buildListBuffer_disk : (buildListBuffer c).2.disk = c.disk := by
  rw [buildListBuffer_eq]
@[simp] theorem buildListBuffer_fdToClient :
    (buildListBuffer c).2.fdToClient = c.fdToClient := by rw [buildListBuffer_eq]
@[simp] theorem buildListBuffer_serverFiles :
    (buildListBuffer c).2.serverFiles = c.serverFiles := by rw [buildListBuffer_eq]

end Names

/-! ### What the log says -/

namespace Conn

variable {a b : Conn} {l : List Call}

theorem sent_of_log (h : b.log = a.log ++ l) : b.sent = a.sent ++ l.flatMap Call.sent := by
  rw [sent, h, List.flatMap_append]; rfl

theorem received_of_log (h : b.log = a.log ++ l) :
    b.received = a.received ++ l.flatMap Call.received := by
  rw [received, h, List.flatMap_append]; rfl

theorem paths_of_log (h : b.log = a.log ++ l) :
    b.paths = a.paths ++ l.filterMap Call.path? := by
  rw [paths, h, List.filterMap_append]; rfl

theorem opened_of_log (h : b.log = a.log ++ l) :
    b.opened = (a.opened || l.any Call.opensUpload) := by
  rw [opened, h, List.any_append]; rfl

theorem accepted_of_log (h : b.log = a.log ++ l) :
    b.accepted = (a.accepted || l.any Call.accepts) := by
  rw [accepted, h, List.any_append]; rfl

theorem replies_of_log (h : b.log = a.log ++ l) :
    b.replies = a.replies ++ l.filterMap Call.reply? := by
  rw [replies, h, List.filterMap_append]; rfl

theorem sent_mono (h : a.log <+: b.log) : a.sent <+: b.sent := by
  obtain ⟨calls, hcalls⟩ := h
  exact ⟨_, (sent_of_log hcalls.symm).symm⟩

theorem received_mono (h : a.log <+: b.log) : a.received <+: b.received := by
  obtain ⟨calls, hcalls⟩ := h
  exact ⟨_, (received_of_log hcalls.symm).symm⟩

theorem replies_mono (h : a.log <+: b.log) : a.replies <+: b.replies := by
  obtain ⟨calls, hcalls⟩ := h
  exact ⟨_, (replies_of_log hcalls.symm).symm⟩

theorem opened_mono (h : a.log <+: b.log) (ha : a.opened = true) : b.opened = true := by
  obtain ⟨calls, hcalls⟩ := h
  rw [opened_of_log hcalls.symm, ha, Bool.true_or]

end Conn

/-! Closing sends nothing, receives nothing, and opens and accepts no upload. -/

section Closing

variable (k : Ctx)

@[simp] theorem closeAndCleanup_received : (closeAndCleanup k).received = k.received := by
  rw [Conn.received_of_log (closeAndCleanup_log k)]
  split_ifs <;> exact List.append_nil _

@[simp] theorem closeAndCleanup_sent : (closeAndCleanup k).sent = k.sent := by
  rw [Conn.sent_of_log (closeAndCleanup_log k)]
  split_ifs <;> exact List.append_nil _

@[simp] theorem closeAndCleanup_replies : (closeAndCleanup k).replies = k.replies := by
  rw [Conn.replies_of_log (closeAndCleanup_log k)]
  split_ifs <;> exact List.append_nil _

@[simp] theorem closeAndCleanup_opened : (closeAndCleanup k).opened = k.opened := by
  rw [Conn.opened_of_log (closeAndCleanup_log k)]
  split_ifs <;> exact Bool.or_false _

@[simp] theorem closeAndCleanup_accepted : (closeAndCleanup k).accepted = k.accepted := by
  rw [Conn.accepted_of_log (closeAndCleanup_log k)]
  split_ifs <;> exact Bool.or_false _

end Closing

/-! ### The disk -/

/-- The directories stay, and at no entry is a file forgotten. -/
structure Disk.Grows (k k' : Disk) : Prop where
  tree : k'.tree = k.tree
  files : ∀ l, (k.slot l).files.length ≤ (k'.slot l).files.length

namespace Disk.Grows

theorem refl (k : Disk) : Grows k k := ⟨rfl, fun _ => Nat.le_refl _⟩

theorem trans {k k' k'' : Disk} (h : Grows k k') (h' : Grows k' k'') : Grows k k'' :=
  ⟨h'.tree.trans h.tree, fun l => (h.files l).trans (h'.files l)⟩

theorem openWrite (k : Disk) (p : Path) : Grows k (k.openWrite p).2 := by
  refine ⟨openWrite_tree k p, fun l => ?_⟩
  by_cases h : k.tree.resolve p = .entry l
  · obtain ⟨-, -, -, -, -, hle, -⟩ := openWrite_entry k h
    exact hle
  · rw [openWrite_slot_of_ne k h]

theorem unlink (k : Disk) (p : Path) : Grows k (k.unlink p).2 :=
  ⟨unlink_tree k p, fun l => by rw [unlink_files]⟩

theorem pwrite (k : Disk) (h : Handle) (bs : List Byte) (off : Nat) :
    Grows k (k.pwrite h bs off) :=
  ⟨pwrite_tree k h bs off, fun l => by rw [length_pwrite_files]⟩

end Disk.Grows

namespace Ctx

variable (c : Ctx) (p : Path) (bs : List Byte) (off : Nat)

theorem sysOpenWrite_grows : c.disk.Grows (c.sysOpenWrite p).2.disk := by
  rcases c.sysOpenWrite_cases p with ⟨-, h, -⟩ | ⟨-, h⟩
  · rw [h]; exact .refl _
  · rw [h]; exact .openWrite _ _

theorem sysUnlink_grows : c.disk.Grows (c.sysUnlink p).2.disk := by
  rcases c.sysUnlink_cases p with ⟨-, h, -⟩ | ⟨-, h⟩
  · rw [h]; exact .refl _
  · rw [h]; exact .unlink _ _

theorem sysPwrite_grows (h : Handle) : c.disk.Grows (c.sysPwrite h bs off).2.disk := by
  rcases c.sysPwrite_disk h bs off with hd | ⟨n, hd⟩
  · rw [hd]; exact .refl _
  · rw [hd]; exact .pwrite _ _ _ _

theorem sysOpenWrite_slot_of_ne {l : Loc} (h : c.disk.tree.resolve p ≠ .entry l) :
    (c.sysOpenWrite p).2.disk.slot l = c.disk.slot l := by
  rcases c.sysOpenWrite_cases p with ⟨-, hd, -⟩ | ⟨-, hd⟩
  · rw [hd]
  · rw [hd, Disk.openWrite_slot_of_ne _ h]

theorem sysUnlink_slot_of_ne {l : Loc} (h : c.disk.tree.resolve p ≠ .entry l) :
    (c.sysUnlink p).2.disk.slot l = c.disk.slot l := by
  rcases c.sysUnlink_cases p with ⟨-, hd, -⟩ | ⟨-, hd⟩
  · rw [hd]
  · rw [hd, Disk.unlink_slot_of_ne _ h]

theorem sysPwrite_slot_of_ne {l m : Loc} (gen : Nat) (h : m ≠ l) :
    (c.sysPwrite (.file l gen) bs off).2.disk.slot m = c.disk.slot m := by
  rcases c.sysPwrite_disk (.file l gen) bs off with hd | ⟨n, hd⟩
  · rw [hd]
  · rw [hd, Disk.pwrite_slot_of_ne _ _ _ _ h]

/-- An `unlink` that fails changes nothing. -/
theorem sysUnlink_false_disk (h : (c.sysUnlink p).1 = false) : (c.sysUnlink p).2.disk = c.disk := by
  rcases c.sysUnlink_cases p with ⟨-, hd, -⟩ | ⟨hu, hd⟩
  · exact hd
  · rw [hd, Disk.unlink_false_disk _ (hu.symm.trans h)]

/-- An `unlink` that succeeds removes the entry of its path. -/
theorem sysUnlink_true_disk (h : (c.sysUnlink p).1 = true) :
    (c.disk.unlink p).1 = true ∧ (c.sysUnlink p).2.disk = (c.disk.unlink p).2 := by
  rcases c.sysUnlink_cases p with ⟨hu, -, -⟩ | ⟨hu, hd⟩
  · rw [hu] at h; cases h
  · exact ⟨hu.symm.trans h, hd⟩

/-- An `open` for writing that fails changes nothing. -/
theorem sysOpenWrite_none_disk (h : (c.sysOpenWrite p).1 = none) :
    (c.sysOpenWrite p).2.disk = c.disk := by
  rcases c.sysOpenWrite_cases p with ⟨-, hd, -⟩ | ⟨ho, hd⟩
  · exact hd
  · rw [hd, Disk.openWrite_none_disk _ (ho.symm.trans h)]

/-- An `open` for writing that succeeds is the file system's. -/
theorem sysOpenWrite_some_disk {h : Handle} (ho : (c.sysOpenWrite p).1 = some h) :
    (c.disk.openWrite p).1 = some h ∧ (c.sysOpenWrite p).2.disk = (c.disk.openWrite p).2 := by
  rcases c.sysOpenWrite_cases p with ⟨hu, -, -⟩ | ⟨hu, hd⟩
  · rw [hu] at ho; cases ho
  · exact ⟨hu.symm.trans ho, hd⟩

end Ctx

/-- The open file of an upload: a file at the entry that the connection's path denotes. -/
structure UploadFile (c : Ctx) (l : Loc) (gen : Nat) : Prop where
  fd : c.client.fileFd = some (.file l gen)
  target : c.disk.tree.resolve c.filepath = .entry l
  lt : gen < (c.disk.slot l).files.length

/-- Whoever receives the body of an upload has its file open. -/
def HandleOk (c : Ctx) : Prop :=
  c.freed = false → c.client.state = .recvPutData → ∃ l gen, UploadFile c l gen

/-! ### One step

Each lemma goes through the groups of steps; what a group cannot touch is equal by computation. -/

section OneStep

variable {c c' : Ctx} {st : Status} {msg : List Byte}

theorem loadGetSize_of_zero (h : c.client.simpleResponseLen = 0) :
    loadGetSize c = c.setClient fun k =>
      { k with
        simpleResponseBuf := copyAt k.simpleResponseBuf 0 (sizeBytes k.fileSize)
        simpleResponseLen := sizeLen
        simpleResponseSent := 0 } := if_pos h

theorem acceptUpload_log (c : Ctx) : (acceptUpload c).log
    = c.log ++ [.read (readExtra c).1, .accept c.client.filename] := by
  rw [acceptUpload, addFileToList_log]
  exact List.append_assoc ..

theorem acceptUpload_client (c : Ctx) :
    (acceptUpload c).client = { c.client with fileFd := none } := by
  rw [acceptUpload, addFileToList_client]; rfl

theorem Choose.fd (h : Choose c c' st msg) : c'.client.fd = c.client.fd := by
  cases h with
  | deleted => rw [removeFileFromList_client]; rfl
  | accepted => rw [acceptUpload_client]
  | listNoMemory => rw [buildListBuffer_client]; rfl
  | _ => rfl

theorem Close.fd (h : Close c c') : c'.client.fd = c.client.fd := by cases h <;> rfl

/-- The descriptor of a connection never changes. -/
theorem Step.fd (h : Step c c') : c'.client.fd = c.client.fd := by
  cases h with
  | quiet h => cases h <;> rfl
  | receive h => cases h <;> rfl
  | begin h => cases h <;> rfl
  | choose h => exact h.fd
  | send h =>
    cases h with
    | lineList =>
      simp only [Ctx.modifyEventLoop_client, Ctx.setClient_client, buildListBuffer_client]; rfl
    | loadSize hs hl => rw [loadGetSize_of_zero hl]; rfl
    | _ => rfl
  | close h => rw [closeAndCleanup_client]; exact h.fd
  | fault => rfl

theorem Choose.map (h : Choose c c' st msg) : c'.fdToClient = c.fdToClient := by
  cases h with
  | deleted => rw [removeFileFromList_fdToClient]; rfl
  | accepted => rw [acceptUpload, addFileToList_fdToClient]; rfl
  | listNoMemory => rw [buildListBuffer_fdToClient]; rfl
  | _ => rfl

theorem Close.map (h : Close c c') : c'.fdToClient = c.fdToClient := by cases h <;> rfl

theorem Close.freed (h : Close c c') : c'.freed = c.freed := by cases h <;> rfl

/-- The map changes only when the connection is destroyed, which takes its descriptor out. -/
theorem Step.map (h : Step c c') :
    c'.freed = c.freed ∧ c'.fdToClient = c.fdToClient ∨
      c'.freed = true ∧ c'.fdToClient = dictionaryRemove c.fdToClient c.client.fd := by
  cases h with
  | quiet h => cases h <;> exact .inl ⟨rfl, rfl⟩
  | receive h => cases h <;> exact .inl ⟨rfl, rfl⟩
  | begin h => cases h <;> exact .inl ⟨rfl, rfl⟩
  | choose h => exact .inl ⟨h.freed, h.map⟩
  | send h =>
    refine .inl ?_
    cases h with
    | lineList =>
      constructor
      · rw [Ctx.modifyEventLoop_freed, Ctx.setClient_freed, buildListBuffer_freed]; rfl
      · rw [Ctx.modifyEventLoop_toGlobals, Ctx.setClient_toGlobals, buildListBuffer_fdToClient]; rfl
    | loadSize hs hl => rw [loadGetSize_of_zero hl]; exact ⟨rfl, rfl⟩
    | _ => exact ⟨rfl, rfl⟩
  | close h =>
    refine .inr ⟨rfl, ?_⟩
    rw [closeAndCleanup_fdToClient, h.map, h.fd]
  | fault => exact .inl ⟨rfl, rfl⟩

/-- A reply is chosen while the request is received, or when a LIST fails. -/
theorem Choose.state (h : Choose c c' st msg) :
    c.client.state = .recvHeader ∨ c.client.state = .recvPutSize ∨
      c.client.state = .recvPutData ∨ c.client.state = .sendOk ∧ c.client.requestVerb = .list := by
  cases h with
  | bad hl => exact .inl hl.state
  | tooLong hs => exact .inl hs
  | list hl => exact .inl hl.state
  | deleteAbsent hl => exact .inl hl.state
  | deleteFailed hl => exact .inl hl.state
  | deleted hl => exact .inl hl.state
  | getMissing hl => exact .inl hl.state
  | getFailed hl => exact .inl hl.state
  | getOpened hl => exact .inl hl.state
  | sizeCut hs => exact .inr (.inl hs)
  | openFailed hs => exact .inr (.inl hs)
  | bodyCut hs => exact .inr (.inr (.inl hs))
  | noFile hs => exact .inr (.inr (.inl hs))
  | bodyFailed hs => exact .inr (.inr (.inl hs))
  | extraByte hs => exact .inr (.inr (.inl hs))
  | accepted hs => exact .inr (.inr (.inl hs))
  | listNoMemory hs hv => exact .inr (.inr (.inr ⟨hs, hv⟩))

/-- The list changes only when a reply is chosen. -/
theorem Step.serverFiles (h : Step c c') :
    c'.serverFiles = c.serverFiles ∨
      ∃ d st msg, Choose c d st msg ∧ c' = fillResponse d st msg := by
  cases h with
  | quiet h => cases h <;> exact .inl rfl
  | receive h => cases h <;> exact .inl rfl
  | begin h => cases h <;> exact .inl rfl
  | choose h => exact .inr ⟨_, _, _, h, rfl⟩
  | send h =>
    refine .inl ?_
    cases h with
    | lineList =>
      rw [Ctx.modifyEventLoop_toGlobals, Ctx.setClient_toGlobals, buildListBuffer_serverFiles]; rfl
    | loadSize hs hl => rw [loadGetSize_of_zero hl]; rfl
    | _ => rfl
  | close h => refine .inl ?_; rw [closeAndCleanup_serverFiles]; cases h <;> rfl
  | fault => exact .inl rfl

/-! #### The log -/

theorem Choose.log (h : Choose c c' st msg) : c.log <+: c'.log := by
  cases h with
  | tooLong => exact List.prefix_rfl
  | deleteFailed => exact (List.prefix_append ..).trans (List.prefix_append ..)
  | deleted =>
    rw [removeFileFromList_log]
    exact (List.prefix_append ..).trans (List.prefix_append ..)
  | getMissing => exact (List.prefix_append ..).trans (List.prefix_append ..)
  | getFailed => exact (List.prefix_append ..).trans (List.prefix_append ..)
  | getOpened => exact (List.prefix_append ..).trans (List.prefix_append ..)
  | accepted =>
    rw [acceptUpload_log]
    exact List.prefix_append ..
  | listNoMemory => rw [buildListBuffer_log]; exact List.prefix_append ..
  | _ => exact List.prefix_append ..

theorem Close.log (h : Close c c') : c.log <+: c'.log := by
  cases h with
  | noFile => exact List.prefix_rfl
  | got => exact List.prefix_rfl
  | pread => exact List.prefix_rfl
  | _ => exact List.prefix_append ..

/-- The log only grows. -/
theorem Step.log (h : Step c c') : c.log <+: c'.log := by
  cases h with
  | quiet h =>
    cases h with
    | pread => exact List.prefix_rfl
    | _ => exact List.prefix_append ..
  | receive h => cases h <;> exact List.prefix_append ..
  | begin h =>
    cases h with
    | put => exact (List.prefix_append ..).trans (List.prefix_append ..)
    | upload => exact List.prefix_append ..
  | choose h => exact h.log.trans (List.prefix_append ..)
  | send h =>
    cases h with
    | lineList =>
      rw [Ctx.modifyEventLoop_log, Ctx.setClient_log, buildListBuffer_log]
      exact (List.prefix_append ..).trans (List.prefix_append ..)
    | loadSize hs hl => rw [loadGetSize_of_zero hl]; exact List.prefix_rfl
    | sizePart => exact List.prefix_append ..
    | data => exact List.prefix_append ..
    | listPart => exact List.prefix_append ..
    | _ => exact (List.prefix_append ..).trans (List.prefix_append ..)
  | close h => rw [closeAndCleanup_log]; exact h.log.trans (List.prefix_append ..)
  | fault => exact List.prefix_append ..

/-! #### The request -/

/-- The fields that hold the request are the same. -/
structure SameHeader (k k' : Client) : Prop where
  buf : k'.headerBuf = k.headerBuf
  len : k'.headerLen = k.headerLen
  verb : k'.requestVerb = k.requestVerb
  name : k'.filename = k.filename

theorem SameHeader.refl (k : Client) : SameHeader k k := ⟨rfl, rfl, rfl, rfl⟩

theorem SameHeader.trans {k k' k'' : Client} (h : SameHeader k k') (h' : SameHeader k' k'') :
    SameHeader k k'' :=
  ⟨h'.buf.trans h.buf, h'.len.trans h.len, h'.verb.trans h.verb, h'.name.trans h.name⟩

/-- Past the header the choice of a reply keeps the request. -/
theorem Choose.sameHeader (h : Choose c c' st msg) (hs : c.client.state ≠ .recvHeader) :
    SameHeader c.client c'.client := by
  cases h with
  | bad hl => exact absurd hl.state hs
  | tooLong hs' => exact absurd hs' hs
  | list hl => exact absurd hl.state hs
  | deleteAbsent hl => exact absurd hl.state hs
  | deleteFailed hl => exact absurd hl.state hs
  | deleted hl => exact absurd hl.state hs
  | getMissing hl => exact absurd hl.state hs
  | getFailed hl => exact absurd hl.state hs
  | getOpened hl => exact absurd hl.state hs
  | accepted => rw [acceptUpload_client]; exact ⟨rfl, rfl, rfl, rfl⟩
  | listNoMemory => rw [buildListBuffer_client]; exact ⟨rfl, rfl, rfl, rfl⟩
  | _ => exact ⟨rfl, rfl, rfl, rfl⟩

theorem Close.sameHeader (h : Close c c') : SameHeader c.client c'.client := by
  cases h <;> exact ⟨rfl, rfl, rfl, rfl⟩

theorem Close.state (h : Close c c') :
    c'.client.state = c.client.state ∨ c'.client.state = .done := by
  cases h with
  | replied => exact .inr rfl
  | got => exact .inr rfl
  | listed => exact .inr rfl
  | _ => exact .inl rfl

theorem Send.sameHeader (h : Send c c') : SameHeader c.client c'.client := by
  cases h with
  | lineList =>
    simp only [Ctx.modifyEventLoop_client, Ctx.setClient_client, buildListBuffer_client]
    exact ⟨rfl, rfl, rfl, rfl⟩
  | loadSize _ hl => rw [loadGetSize_of_zero hl]; exact ⟨rfl, rfl, rfl, rfl⟩
  | _ => exact ⟨rfl, rfl, rfl, rfl⟩

theorem ConnState.Sending.ne {s : ConnState} (h : s.Sending) :
    s ≠ .recvHeader ∧ s ≠ .recvPutSize ∧ s ≠ .recvPutData ∧ s ≠ .done := by
  rcases h with rfl | rfl | rfl | rfl | rfl <;> simp

theorem Send.freed (h : Send c c') : c'.freed = c.freed := by
  cases h with
  | lineList =>
    rw [Ctx.modifyEventLoop_freed, Ctx.setClient_freed, buildListBuffer_freed]
    rfl
  | loadSize hs hl => rw [loadGetSize_of_zero hl]; rfl
  | _ => rfl

theorem Send.sending (h : Send c c') : c'.client.state.Sending := by
  cases h with
  | linePart hs => exact hs.imp id .inl
  | lineGet => exact .inr (.inr (.inl rfl))
  | lineList => exact .inr (.inr (.inr (.inr rfl)))
  | loadSize hs hl => rw [loadGetSize_of_zero hl]; exact .inr (.inr (.inl hs))
  | sizePart hs => exact .inr (.inr (.inl hs))
  | sizeAll => exact .inr (.inr (.inr (.inl rfl)))
  | data hs => exact .inr (.inr (.inr (.inl hs)))
  | listPart hs => exact .inr (.inr (.inr (.inr hs)))

/-- Bytes of a reply are sent in these states only. -/
theorem Send.of_sending (h : Send c c') : c.client.state.Sending := by
  cases h with
  | linePart hs => exact hs.imp id .inl
  | lineGet hs | lineList hs => exact .inl hs
  | loadSize hs | sizePart hs | sizeAll hs => exact .inr (.inr (.inl hs))
  | data hs => exact .inr (.inr (.inr (.inl hs)))
  | listPart hs => exact .inr (.inr (.inr (.inr hs)))

theorem Close.starts (h : Close c c') :
    c.client.state = .recvHeader ∨ c.client.state.Sending := by
  cases h with
  | header hs => exact .inl hs
  | line hs => exact .inr (hs.imp id .inl)
  | replied hs => exact .inr (hs.symm.imp And.left .inl)
  | size hs => exact .inr (.inr (.inr (.inl hs)))
  | noFile hs | pread hs | data hs | got hs => exact .inr (.inr (.inr (.inr (.inl hs))))
  | list hs | listed hs => exact .inr (.inr (.inr (.inr (.inr hs))))

theorem fillResponse_sending (c : Ctx) (st : Status) (msg : List Byte) :
    (fillResponse c st msg).client.state.Sending := by
  rw [fillResponse_state]
  cases st
  · exact .inl rfl
  · exact .inr (.inl rfl)

/-- Only the choice of a reply leads to `STATE_SEND_OK`. -/
theorem Step.sendOk (h : Step c c') (hs : c'.client.state = .sendOk) :
    c.client.state = .sendOk ∨ ∃ d st msg, Choose c d st msg ∧ c' = fillResponse d st msg := by
  cases h with
  | quiet h => cases h <;> exact .inl hs
  | receive h => cases h <;> exact .inl hs
  | begin h => cases h <;> cases hs
  | choose h => exact .inr ⟨_, _, _, h, rfl⟩
  | send h =>
    cases h with
    | linePart => exact .inl hs
    | loadSize hs' hl =>
      rw [loadGetSize_of_zero hl] at hs
      exact .inl hs
    | sizePart => exact .inl hs
    | data => exact .inl hs
    | listPart => exact .inl hs
    | _ => cases hs
  | close h =>
    rw [closeAndCleanup_client] at hs
    rcases h.state with h' | h'
    · exact .inl (h'.symm.trans hs)
    · cases h'.symm.trans hs
  | fault => exact .inl hs

/-- Once the request is parsed, the record keeps it. -/
theorem Step.sameHeader (h : Step c c') (hs : c.client.state ≠ .recvHeader) :
    c'.client.state ≠ .recvHeader ∧ SameHeader c.client c'.client := by
  cases h with
  | quiet h => cases h <;> exact ⟨hs, rfl, rfl, rfl, rfl⟩
  | receive h =>
    cases h with
    | header _ hs' => exact absurd hs' hs
    | size => exact ⟨hs, rfl, rfl, rfl, rfl⟩
    | body => exact ⟨hs, rfl, rfl, rfl, rfl⟩
  | begin h =>
    cases h with
    | put hl => exact absurd hl.state hs
    | upload => exact ⟨by simp [setState], rfl, rfl, rfl, rfl⟩
  | choose h =>
    obtain ⟨h1, h2, h3, h4⟩ := h.sameHeader hs
    exact ⟨(fillResponse_sending _ _ _).ne.1, h1, h2, h3, h4⟩
  | send h => exact ⟨h.sending.ne.1, h.sameHeader⟩
  | close h =>
    rw [closeAndCleanup_client]
    obtain ⟨h1, h2, h3, h4⟩ := h.sameHeader
    exact ⟨by rcases h.state with h | h <;> simp [h, hs], h1, h2, h3, h4⟩
  | fault hl => exact absurd hl.state hs

/-! #### The disk -/

theorem Choose.grows (h : Choose c c' st msg) : c.disk.Grows c'.disk := by
  cases h with
  | deleteFailed => exact Ctx.sysUnlink_grows (takeLine c _) _
  | deleted => rw [removeFileFromList_disk]; exact Ctx.sysUnlink_grows (takeLine c _) _
  | openFailed => exact Ctx.sysOpenWrite_grows (c.setClient _) _
  | bodyFailed => exact Ctx.sysPwrite_grows (c.sysRead _).2 _ _ _
  | accepted => rw [acceptUpload, addFileToList_disk]; exact .refl _
  | listNoMemory => rw [buildListBuffer_disk]; exact .refl _
  | _ => exact .refl _

theorem Close.disk (h : Close c c') : c'.disk = c.disk := by cases h <;> rfl

theorem Send.disk (h : Send c c') : c'.disk = c.disk := by
  cases h with
  | lineList =>
    rw [Ctx.modifyEventLoop_toGlobals, Ctx.setClient_toGlobals, buildListBuffer_disk]; rfl
  | loadSize hs hl => rw [loadGetSize_of_zero hl]; rfl
  | _ => rfl

theorem closeAndCleanup_grows (k : Ctx) : k.disk.Grows (closeAndCleanup k).disk := by
  rw [closeAndCleanup_disk]
  split_ifs
  · exact k.sysUnlink_grows _
  · exact .refl _

/-- No directory and no file is forgotten. -/
theorem Step.grows (h : Step c c') : c.disk.Grows c'.disk := by
  cases h with
  | quiet h => cases h <;> exact .refl _
  | receive h =>
    cases h with
    | body => exact Ctx.sysPwrite_grows (c.sysRead _).2 _ _ _
    | _ => exact .refl _
  | begin h =>
    cases h with
    | put => exact .refl _
    | upload => exact Ctx.sysOpenWrite_grows (c.setClient _) _
  | choose h => exact h.grows
  | send h => rw [h.disk]; exact .refl _
  | close h => have := closeAndCleanup_grows; rw [← h.disk]; exact this _
  | fault => exact .refl _

theorem Step.tree (h : Step c c') : c'.disk.tree = c.disk.tree := h.grows.tree

/-- The path of a connection changes only with its request line. -/
theorem Step.filepath (h : Step c c') (hs : c.client.state ≠ .recvHeader) :
    c'.filepath = c.filepath := by
  rw [Ctx.filepath, Ctx.filepath, h.tree, (h.sameHeader hs).2.name]

/-- A file that an upload may write to stays one. -/
theorem UploadFile.step {l : Loc} {gen : Nat} (hu : UploadFile c l gen)
    (hfd : c'.client.fileFd = c.client.fileFd) (hpath : c'.filepath = c.filepath)
    (hgrows : c.disk.Grows c'.disk) : UploadFile c' l gen where
  fd := hfd.trans hu.fd
  target := by rw [hgrows.tree, hpath]; exact hu.target
  lt := hu.lt.trans_le (hgrows.files l)

/-- What `recv_put_size` opens is the file that its path then denotes. -/
theorem openUploadFile_uploadFile {h : Handle} (ho : (openUploadFile c).1 = some h) :
    ∃ l gen, UploadFile (setState (openUploadFile c).2 .recvPutData) l gen ∧
      ((openUploadFile c).2.disk.slot l).link = some gen ∧
      (openUploadFile c).2.disk.content l gen = [] := by
  obtain ⟨hopen, hdisk⟩ := Ctx.sysOpenWrite_some_disk (c.setClient _) c.filepath ho
  cases hr : c.disk.tree.resolve c.filepath with
  | dir d =>
    rw [(Disk.openWrite_eq_none _).mpr (fun l hl => by cases hr.symm.trans hl)] at hopen
    cases hopen
  | none =>
    rw [(Disk.openWrite_eq_none _).mpr (fun l hl => by cases hr.symm.trans hl)] at hopen
    cases hopen
  | entry l =>
    obtain ⟨gen, h1, h2, h3, -, -, -⟩ := Disk.openWrite_entry _ hr
    have hd : (openUploadFile c).2.disk = (c.disk.openWrite c.filepath).2 := hdisk
    have ho' : (openUploadFile c).1 = some (.file l gen) := (ho.trans hopen.symm).trans h1
    refine ⟨l, gen, ⟨ho', ?_, ?_⟩, by rw [hd]; exact h2, by rw [hd]; exact h3⟩
    · change (openUploadFile c).2.disk.tree.resolve
        (snprintf 1024 ((openUploadFile c).2.disk.tree.tempName ++ [slash] ++ c.client.filename)) = _
      rw [hd, Disk.openWrite_tree]
      exact hr
    · change gen < ((openUploadFile c).2.disk.slot l).files.length
      rw [hd]
      exact ((c.disk.openWrite c.filepath).2.slot l).link_lt gen h2

theorem HandleOk.step (hh : HandleOk c) (hc : c.freed = false) (h : Step c c') : HandleOk c' := by
  intro hc' hs'
  cases h with
  | quiet h =>
    cases h with
    | _ =>
      obtain ⟨l, gen, hu⟩ := hh hc hs'
      exact ⟨l, gen, hu.step rfl rfl (.refl _)⟩
  | receive h =>
    cases h with
    | header _ hs => exact absurd (hs.symm.trans hs') (by simp)
    | size hs => exact absurd (hs.symm.trans hs') (by simp)
    | body hs =>
      obtain ⟨l, gen, hu⟩ := hh hc hs
      have hstep := Step.receive (Receive.body hs ‹_› ‹_› ‹_› ‹_› ‹_›)
      exact ⟨l, gen, hu.step rfl (hstep.filepath (by simp [hs])) hstep.grows⟩
  | begin h =>
    cases h with
    | put => cases hs'
    | upload hs hlen ho =>
      obtain ⟨l, gen, hu, -, -⟩ := openUploadFile_uploadFile ho
      exact ⟨l, gen, hu⟩
  | choose h => exact absurd hs' (fillResponse_sending _ _ _).ne.2.2.1
  | send h => exact absurd hs' h.sending.ne.2.2.1
  | close h => cases hc'
  | fault hl => exact absurd (hl.state.symm.trans hs') (by simp)

/-! #### The fault flag -/

theorem addFileToList_fault (c : Ctx) (name : Path) (h : c.fault = true) :
    (addFileToList c name).fault = true := by
  unfold addFileToList
  dsimp only
  split
  · exact h
  · rfl
  · dsimp only
    split_ifs <;> exact h

theorem removeFileFromList_fault (c : Ctx) (name : Path) (h : c.fault = true) :
    (removeFileFromList c name).fault = true := by
  unfold removeFileFromList
  dsimp only
  split
  · exact h
  · rfl
  · exact h

theorem buildListBuffer_fault (c : Ctx) (h : c.fault = true) :
    (buildListBuffer c).2.fault = true := by
  unfold buildListBuffer
  dsimp only
  split
  · rfl
  · exact h

/-- Undefined behaviour stays. -/
theorem Step.fault_mono (h : Step c c') (hf : c.fault = true) : c'.fault = true := by
  cases h with
  | quiet h => cases h <;> exact hf
  | receive h => cases h <;> exact hf
  | begin h => cases h <;> exact hf
  | choose h =>
    cases h with
    | deleted => exact removeFileFromList_fault _ _ hf
    | accepted => exact addFileToList_fault _ _ hf
    | listNoMemory => exact buildListBuffer_fault _ hf
    | _ => exact hf
  | send h =>
    cases h with
    | lineList => exact buildListBuffer_fault _ hf
    | loadSize hs hl => rw [loadGetSize_of_zero hl]; exact hf
    | _ => exact hf
  | close h => rw [closeAndCleanup_fault]; cases h <;> exact hf
  | fault => rfl

theorem closeAndCleanup_slot (k : Ctx) (l : Loc) :
    (closeAndCleanup k).disk.slot l = k.disk.slot l ∨
      k.client.requestVerb = .put ∧ k.disk.tree.resolve k.filepath = .entry l := by
  rw [closeAndCleanup_disk]
  split_ifs with hu
  · by_cases hl : k.disk.tree.resolve k.filepath = .entry l
    · exact .inr ⟨hu.1, hl⟩
    · exact .inl (k.sysUnlink_slot_of_ne _ hl)
  · exact .inl rfl

/-- The request of a connection cannot change any more. -/
def Conn.Settled (c : Conn) : Prop := c.freed = true ∨ c.client.state ≠ .recvHeader

theorem Choose.slot (hh : HandleOk c) (hc : c.freed = false) (h : Choose c c' st msg) (l : Loc) :
    c'.disk.slot l = c.disk.slot l ∨ c'.disk.tree.resolve c'.filepath = .entry l := by
  by_cases hl : c'.disk.tree.resolve c'.filepath = .entry l
  · exact .inr hl
  refine .inl ?_
  rw [Ctx.filepath, h.grows.tree] at hl
  cases h with
  | @deleteFailed w => exact Ctx.sysUnlink_slot_of_ne (takeLine c _) _ hl
  | @deleted w =>
    rw [removeFileFromList_client] at hl
    rw [removeFileFromList_disk]
    exact Ctx.sysUnlink_slot_of_ne (takeLine c _) _ hl
  | openFailed => exact Ctx.sysOpenWrite_slot_of_ne (c.setClient _) _ hl
  | @bodyFailed bs f hs hlen hr hne hf hw =>
    obtain ⟨m, gen, hu⟩ := hh hc hs
    obtain rfl := Option.some.inj (hf.symm.trans hu.fd)
    refine Ctx.sysPwrite_slot_of_ne (c.sysRead _).2 _ _ _ fun hlm => hl ?_
    rw [hlm]
    exact hu.target
  | accepted => rw [acceptUpload, addFileToList_disk]; rfl
  | listNoMemory => rw [buildListBuffer_disk]; rfl
  | _ => rfl

/-- **Frame.** A step touches no entry but the one that the path of its connection denotes. -/
theorem Step.slot (hh : HandleOk c) (hc : c.freed = false) (h : Step c c') (l : Loc) :
    c'.disk.slot l = c.disk.slot l ∨
      c'.toConn.Settled ∧ c'.disk.tree.resolve c'.filepath = .entry l := by
  have htree := h.tree
  cases h with
  | quiet h => cases h <;> exact .inl rfl
  | receive h =>
    cases h with
    | @body bs f hs hlen hr hne hf hw =>
      obtain ⟨m, gen, hu⟩ := hh hc hs
      obtain rfl := Option.some.inj (hf.symm.trans hu.fd)
      by_cases hl : l = m
      · subst hl
        refine .inr ⟨.inr (by simp [Ctx.setClient, writeBody, hs]), ?_⟩
        rw [htree, Ctx.filepath, htree]
        exact hu.target
      · exact .inl (Ctx.sysPwrite_slot_of_ne (c.sysRead _).2 _ _ _ hl)
    | _ => exact .inl rfl
  | begin h =>
    cases h with
    | put => exact .inl rfl
    | upload =>
      by_cases hl : c.disk.tree.resolve c.filepath = .entry l
      · refine .inr ⟨.inr (by simp [setState]), ?_⟩
        rw [htree, Ctx.filepath, htree]
        exact hl
      · exact .inl (Ctx.sysOpenWrite_slot_of_ne (c.setClient _) _ hl)
  | @choose c' st msg h =>
    rcases h.slot hh hc l with hd | hl
    · exact .inl hd
    · exact .inr ⟨.inr (fillResponse_sending _ _ _).ne.1, hl⟩
  | send h => exact .inl (by rw [h.disk])
  | @close k h =>
    rcases closeAndCleanup_slot k l with hd | ⟨-, hl⟩
    · exact .inl (by rw [hd, h.disk])
    · refine .inr ⟨.inl rfl, ?_⟩
      rw [Ctx.filepath, closeAndCleanup_client, (closeAndCleanup_grows k).tree]
      exact hl
  | fault => exact .inl rfl

end OneStep

end FileServer
