/-
  The process of `server.c` from its start to its end.

  `main` creates the temporary directory, the listening socket and the event loop,
  serves until SIGINT clears `running` or `event_loop_wait` fails, and calls
  `cleanup` on every way out behind `mkdtemp`.  Where a handler crashes the process, on
  a `NULL` that an allocation returned or on freed memory, nothing is cleaned up.
  `main_cleans_up`: unless that happens, the sockets that `create_and_bind_socket` opened
  and the event loop are closed again, each once; the directory is left empty, so that
  `rmdir` removes it, exactly if its files could be unlinked; and no file elsewhere is
  touched.  What `accept` returned, and the files that are open then, are left to
  `exit`.  The entries that `readdir` finds have names of at most 255 bytes, whatever the
  clients asked for, so none of them is cut in `filepath` (`Reachable.entries`).
-/
import FileServer.FailedUpload
import FileServer.Lifetime
import FileServer.Listing

namespace FileServer

/-! ### Descriptors -/

/-- A call that opens or closes a descriptor, outside of the handlers. -/
inductive FdCall
  | opened (fd : Int)
  | closed (fd : Int)
  deriving DecidableEq

/-- The descriptors that are open after these calls, the last one first; `none` where one was closed
that was not open. -/
def openFds : List Int → List FdCall → Option (List Int)
  | fds, [] => some fds
  | fds, .opened fd :: calls => openFds (fd :: fds) calls
  | fds, .closed fd :: calls => if fd ∈ fds then openFds (fds.erase fd) calls else none

/-- How the calls for one of the addresses of `getaddrinfo` end. -/
structure Candidate where
  /-- What `socket` returns, `none` being `-1`. -/
  socket : Option Int
  bindOk : Bool

/-- What `create_and_bind_socket` meets. -/
structure Binding where
  /-- What `getaddrinfo` finds, `none` where it fails. -/
  addresses : Option (List Candidate)
  listenOk : Bool
  /-- `fcntl(fd, F_GETFL, 0)`. -/
  getFlagsOk : Bool
  /-- `fcntl(fd, F_SETFL, …)`. -/
  setFlagsOk : Bool

/-- `make_socket_nonblocking`, and whether it succeeds. -/
def makeSocketNonblocking (b : Binding) : Bool :=
  if b.getFlagsOk = false then false else b.setFlagsOk

/-- The loop of `create_and_bind_socket`: the socket that it ends with, and its calls. -/
def bindFirst : List Candidate → Option Int × List FdCall
  | [] => (none, [])
  | a :: as =>
    match a.socket with
    | none => bindFirst as
    | some fd =>
      if a.bindOk then (some fd, [.opened fd])
      else ((bindFirst as).1, .opened fd :: .closed fd :: (bindFirst as).2)

/-- `create_and_bind_socket`; `none` is `-1`. -/
def createAndBindSocket (b : Binding) : Option Int × List FdCall :=
  match b.addresses with
  | none => (none, [])
  | some as =>
    let r := bindFirst as
    match r.1 with
    | none => (none, r.2)
    | some fd =>
      if b.listenOk = false then (none, r.2 ++ [.closed fd])
      else if makeSocketNonblocking b = false then (none, r.2 ++ [.closed fd])
      else (some fd, r.2)

/-! ### The temporary directory -/

/-- What `cleanup_temp_directory` meets. -/
structure DirStream where
  /-- Whether `opendir` succeeds. -/
  opens : Bool
  /-- The names that `readdir` gives, in its order. -/
  entries : List Path
  /-- The entries that `unlink` fails on. -/
  refused : Path → Bool

/-- One pass through the loop of `cleanup_temp_directory`. -/
def sweepEntry (refused : Path → Bool) (k : Disk) (name : Path) : Disk :=
  if name ≠ [dot] ∧ name ≠ [dot, dot] then
    let filepath := snprintf 1024 (k.tree.tempName ++ [slash] ++ name)
    if refused name then k else (k.unlink filepath).2
  else k

/-- `cleanup_temp_directory` up to its `rmdir`, which removes the directory if it is empty then. -/
def cleanupTempDirectory (k : Disk) (d : DirStream) : Disk :=
  if d.opens then d.entries.foldl (sweepEntry d.refused) k else k

/-! ### The process -/

/-- What `event_loop_wait` returns while `running` is set. -/
inductive WaitResult
  | ready (batch : List FssEvent)
  | eintr | err

/-- The `while` loop of `main`.  At the end of the list SIGINT has cleared `running`. -/
def Server.mainLoop (s : Server) : List WaitResult → Server
  | [] => s
  | .ready batch :: waits => (s.serveBatch batch).mainLoop waits
  | .eintr :: waits => s.mainLoop waits
  | .err :: _ => s

/-- What the process meets. -/
structure Host where
  argc : Nat
  /-- Whether `vector_create` succeeds. -/
  vectorOk : Bool
  /-- Whether `int_to_shallow_dictionary_create` succeeds. -/
  dictionaryOk : Bool
  /-- The file system as `mkdtemp` leaves it, `none` where it fails. -/
  mkdtemp : Option Disk
  binding : Binding
  /-- What `event_loop_create` returns, `none` where that is negative. -/
  eventLoop : Option Int
  waits : List WaitResult
  dir : DirStream

/-- The end of the process. -/
structure Ended where
  /-- The exit status, `none` where the process has crashed. -/
  status : Option Nat
  /-- The calls for the sockets of `create_and_bind_socket` and for the event loop. -/
  fds : List FdCall
  /-- The server when `cleanup` is called, `none` where it is not. -/
  served : Option Server
  /-- The file system when `rmdir` is called. -/
  disk : Option Disk

/-- The descriptors that `cleanup` closes. -/
def cleanupFds (listenFd eventLoopFd : Option Int) : List FdCall :=
  (listenFd.toList ++ eventLoopFd.toList).map .closed

/-- `cleanup`, and the return from `main`. -/
def endWith (h : Host) (status : Nat) (fds : List FdCall) (listenFd eventLoopFd : Option Int)
    (s : Server) : Ended :=
  ⟨status, fds ++ cleanupFds listenFd eventLoopFd, some s, some (cleanupTempDirectory s.disk h.dir)⟩

/-- `main` of `server.c`. -/
def serverMain (h : Host) : Ended :=
  if h.argc ≠ 2 then ⟨some 1, [], none, none⟩
  else if h.vectorOk = false then ⟨some 1, [], none, none⟩
  else if h.dictionaryOk = false then ⟨some 1, [], none, none⟩
  else
    match h.mkdtemp with
    | none => ⟨some 1, [], none, none⟩
    | some k =>
      let s := Server.boot k
      let listen := createAndBindSocket h.binding
      match listen.1 with
      | none => endWith h 1 listen.2 none none s
      | some listenFd =>
        match h.eventLoop with
        | none => endWith h 1 listen.2 listenFd none s
        | some loopFd =>
          let fds := listen.2 ++ [.opened loopFd]
          let served := s.mainLoop h.waits
          -- a process that crashes does not come to `cleanup`
          if served.fault then ⟨none, fds, none, none⟩
          else endWith h 0 fds listenFd loopFd served

/-! ### The descriptors of `main` -/

theorem openFds_append (calls calls' : List FdCall) (fds : List Int) :
    openFds fds (calls ++ calls') = (openFds fds calls).bind fun fds' => openFds fds' calls' := by
  induction calls generalizing fds with
  | nil => rfl
  | cons x calls ih =>
    cases x with
    | opened fd => exact ih (fd :: fds)
    | closed fd =>
      rw [List.cons_append, openFds, openFds]
      split_ifs
      · exact ih (fds.erase fd)
      · rfl

/-- The calls leave the socket open that they end with, and no other one. -/
theorem openFds_bindFirst (as : List Candidate) :
    openFds [] (bindFirst as).2 = some (bindFirst as).1.toList := by
  induction as with
  | nil => rfl
  | cons a as ih =>
    rw [bindFirst]
    cases a.socket with
    | none => exact ih
    | some fd =>
      dsimp only
      split_ifs
      · rfl
      · show openFds [] (.opened fd :: .closed fd :: (bindFirst as).2) = _
        rw [openFds, openFds, if_pos (List.mem_singleton_self fd), List.erase_cons_head]
        exact ih

theorem openFds_createAndBindSocket (b : Binding) :
    openFds [] (createAndBindSocket b).2 = some (createAndBindSocket b).1.toList := by
  unfold createAndBindSocket
  cases b.addresses with
  | none => rfl
  | some as =>
    have hbind := openFds_bindFirst as
    dsimp only
    cases hfd : (bindFirst as).1 with
    | none =>
      rw [hfd] at hbind
      exact hbind
    | some fd =>
      -- the socket is closed again on both ways out
      have hclosed : openFds [] ((bindFirst as).2 ++ [.closed fd]) = some [] := by
        rw [openFds_append, hbind, hfd, Option.toList_some, Option.bind_some, openFds,
          if_pos (List.mem_singleton_self fd), List.erase_cons_head]
        rfl
      rw [hfd] at hbind
      dsimp only
      split_ifs
      · exact hclosed
      · exact hclosed
      · exact hbind

theorem openFds_serverMain (h : Host) (hend : (serverMain h).status ≠ none) :
    openFds [] (serverMain h).fds = some [] := by
  unfold serverMain at hend ⊢
  split_ifs at hend ⊢
  · rfl
  · rfl
  · rfl
  cases hk : h.mkdtemp with
  | none => rfl
  | some k =>
    have hsocket := openFds_createAndBindSocket h.binding
    rw [hk] at hend
    dsimp only at hend ⊢
    cases hfd : (createAndBindSocket h.binding).1 with
    | none =>
      rw [hfd] at hsocket
      show openFds [] ((createAndBindSocket h.binding).2 ++ []) = some []
      rw [List.append_nil]
      exact hsocket
    | some fd =>
      rw [hfd, Option.toList_some] at hsocket
      rw [hfd] at hend
      dsimp only at hend ⊢
      cases hloop : h.eventLoop with
      | none =>
        show openFds [] ((createAndBindSocket h.binding).2 ++ [.closed fd]) = some []
        rw [openFds_append, hsocket, Option.bind_some, openFds,
          if_pos (List.mem_singleton_self fd), List.erase_cons_head]
        rfl
      | some loopFd =>
        rw [hloop] at hend
        dsimp only at hend ⊢
        split_ifs at hend ⊢
        · exact absurd rfl hend
        show openFds [] ((createAndBindSocket h.binding).2 ++ [.opened loopFd] ++
          [.closed fd, .closed loopFd]) = some []
        rw [openFds_append, openFds_append, hsocket, Option.bind_some, openFds, openFds,
          Option.bind_some, openFds]
        -- nothing is known of the two numbers, so the same one twice is a case too
        by_cases heq : loopFd = fd
        · subst heq
          rw [if_pos (List.mem_cons_self ..), List.erase_cons_head, openFds,
            if_pos (List.mem_singleton_self _), List.erase_cons_head]
          rfl
        · have hmem : fd ∈ [loopFd, fd] := List.mem_cons_of_mem _ (List.mem_singleton_self fd)
          have herase : [loopFd, fd].erase fd = [loopFd] := by
            rw [List.erase_cons_tail (by simpa using heq), List.erase_cons_head]
          rw [if_pos hmem, herase, openFds, if_pos (List.mem_singleton_self _),
            List.erase_cons_head]
          rfl

/-! ### Entries -/

theorem mem_components {p c : Path} (h : c ∈ components p) : slash ∉ c ∧ c.length ≤ p.length := by
  induction p generalizing c with
  | nil =>
    obtain rfl := List.mem_singleton.mp h
    exact ⟨List.not_mem_nil, Nat.le_refl _⟩
  | cons b p ih =>
    rw [components] at h
    split_ifs at h with hb
    · rcases List.mem_cons.mp h with rfl | h
      · exact ⟨List.not_mem_nil, Nat.zero_le _⟩
      · obtain ⟨hslash, hlen⟩ := ih h
        exact ⟨hslash, hlen.trans (Nat.le_succ _)⟩
    · cases hp : components p with
      | nil =>
        rw [hp] at h
        obtain rfl := List.mem_singleton.mp h
        refine ⟨fun hmem => hb (List.mem_singleton.mp hmem).symm, ?_⟩
        rw [List.length_singleton, List.length_cons]
        omega
      | cons d ds =>
        rw [hp] at h ih
        rcases List.mem_cons.mp h with rfl | h
        · obtain ⟨hslash, hlen⟩ := ih (List.mem_cons_self ..)
          constructor
          · intro hmem
            rcases List.mem_cons.mp hmem with heq | hmem
            · exact hb heq.symm
            · exact hslash hmem
          · rw [List.length_cons, List.length_cons]
            omega
        · obtain ⟨hslash, hlen⟩ := ih (List.mem_cons_of_mem _ h)
          exact ⟨hslash, hlen.trans (Nat.le_succ _)⟩

/-- A path that denotes an entry ends with the entry's name. -/
theorem Tree.walk_entry {t : Tree} {cs : List Path} {d : DirId} {l : Loc}
    (h : t.walk d cs = .entry l) :
    l.2 ∈ cs ∧ l.2 ≠ [] ∧ l.2 ≠ [dot] ∧ l.2 ≠ [dot, dot] := by
  induction cs generalizing d with
  | nil => cases h
  | cons c cs ih =>
    rw [walk] at h
    have htail : ∀ {d' : DirId}, t.walk d' cs = .entry l →
        l.2 ∈ c :: cs ∧ l.2 ≠ [] ∧ l.2 ≠ [dot] ∧ l.2 ≠ [dot, dot] := fun hwalk => by
      obtain ⟨hmem, hrest⟩ := ih hwalk
      exact ⟨List.mem_cons_of_mem _ hmem, hrest⟩
    by_cases hdot : c = [] ∨ c = [dot]
    · rw [if_pos hdot] at h
      exact htail h
    by_cases hdots : c = [dot, dot]
    · rw [if_neg hdot, if_pos hdots] at h
      exact htail h
    rw [if_neg hdot, if_neg hdots] at h
    cases hsub : t.sub d c with
    | some d' =>
      rw [hsub] at h
      exact htail h
    | none =>
      rw [hsub] at h
      dsimp only at h
      split_ifs at h
      obtain rfl := Target.entry.inj h
      exact ⟨List.mem_cons_self .., fun hnil => hdot (.inl hnil), fun h1 => hdot (.inr h1), hdots⟩

/-- The name of an entry that a client can have created. -/
theorem Tree.resolve_path_entry {t : Tree} {w : Path} {l : Loc} (hw : w.length ≤ 255)
    (h : t.resolve (t.path w) = .entry l) : EntryName l.2 ∧ l.2.length ≤ 255 := by
  rw [t.resolve_temp] at h
  obtain ⟨hmem, hnil, hdot, hdots⟩ := walk_entry h
  obtain ⟨hslash, hlen⟩ := mem_components hmem
  exact ⟨⟨hnil, hslash, hdot, hdots⟩, hlen.trans hw⟩

/-- The entries of the temporary directory have names that fit. -/
def EntriesFit (g : Globals) : Prop := ∀ w, (g.disk.slot (g.disk.tree.temp, w)).link ≠ none →
  EntryName w ∧ w.length ≤ 255

theorem entriesFit_shared : Shared (fun c => ConnOk c ∧ HandleOk c) EntriesFit where
  step := fun c c' hc ⟨hok, hh⟩ hg hstep w hlink => by
    have hok' : ConnOk c' := connOk_stable.step c c' hc hok hstep
    rw [hstep.tree] at hlink
    rcases hstep.slot hh hc (c.disk.tree.temp, w) with heq | ⟨-, hpath⟩
    · rw [heq] at hlink
      exact hg w hlink
    · have hheader := hok'.request.toHeaderOk
      rw [hheader.filepath_eq] at hpath
      exact Tree.resolve_path_entry (hheader.name ▸ length_nameOf_le _) hpath
  close := fun c hc ⟨hok, _⟩ hg w hlink => by
    rw [(closeAndCleanup_grows c).tree] at hlink
    rcases closeAndCleanup_slot c (c.disk.tree.temp, w) with heq | ⟨-, hpath⟩
    · rw [heq] at hlink
      exact hg w hlink
    · have hheader := hok.request.toHeaderOk
      rw [hheader.filepath_eq] at hpath
      exact Tree.resolve_path_entry (hheader.name ▸ length_nameOf_le _) hpath
  map := fun _ _ _ hg => hg

theorem Reachable.entries {s : Server} (h : Reachable s) : EntriesFit s.toGlobals :=
  entriesFit_shared.reachable connOk_handleOk_stable
    (fun _ hk w hlink => absurd (hk w) hlink) h

/-! ### Sweeping the directory -/

/-- `readdir` gives each entry of the temporary directory, in any order, with `.` and `..`. -/
def Lists (k : Disk) (names : List Path) : Prop :=
  ∀ w, w ∈ names ↔ (k.slot (k.tree.temp, w)).link ≠ none ∨ w = [dot] ∨ w = [dot, dot]

section Sweep

variable {k : Disk} {names : List Path}

/-- One pass removes the entry, unless it is refused, and nothing else. -/
theorem sweepEntry_slot (refused : Path → Bool) {w : Path} (hw : EntryName w)
    (hlen : w.length ≤ 255) (l : Loc) :
    (sweepEntry refused k w).tree = k.tree ∧
      ((sweepEntry refused k w).slot l).link
        = (if l = (k.tree.temp, w) ∧ refused w = false then none else (k.slot l).link) ∧
      (l ≠ (k.tree.temp, w) → (sweepEntry refused k w).slot l = k.slot l) := by
  have htemp := k.tree.tempName_length
  have hpath : snprintf 1024 (k.tree.tempName ++ [slash] ++ w) = k.tree.path w := by
    apply List.take_of_length_le
    simp only [List.length_append, List.length_singleton]
    omega
  have hres := k.tree.resolve_entryName hw
  unfold sweepEntry
  rw [if_pos hw.2.2, hpath]
  dsimp only
  cases hr : refused w with
  | true => exact ⟨rfl, by simp, fun _ => rfl⟩
  | false =>
    rw [if_neg (by simp)]
    refine ⟨k.unlink_tree _, ?_, fun hne => ?_⟩
    rotate_left
    · exact Disk.unlink_slot_of_ne _ (by rw [hres]; simpa using hne.symm)
    by_cases hl : l = (k.tree.temp, w)
    · subst hl
      rw [if_pos ⟨rfl, rfl⟩]
      exact Disk.unlink_link _ hres
    · rw [if_neg fun h => hl h.1]
      rw [Disk.unlink_slot_of_ne _ (by rw [hres]; simpa using Ne.symm hl)]

/-- **The loop** removes the entries that it is given and that are not refused. -/
theorem sweep_spec (refused : Path → Bool) (hnames : ∀ w ∈ names, w = [dot] ∨ w = [dot, dot] ∨
      EntryName w ∧ w.length ≤ 255) (k : Disk) :
    (names.foldl (sweepEntry refused) k).tree = k.tree ∧
      (∀ w, ((names.foldl (sweepEntry refused) k).slot (k.tree.temp, w)).link = none ↔
        (k.slot (k.tree.temp, w)).link = none ∨ EntryName w ∧ w ∈ names ∧ refused w = false) ∧
      ∀ l, l.1 ≠ k.tree.temp → (names.foldl (sweepEntry refused) k).slot l = k.slot l := by
  induction names generalizing k with
  | nil => exact ⟨rfl, fun w => by simp, fun _ _ => rfl⟩
  | cons v names ih =>
    rw [List.forall_mem_cons] at hnames
    obtain ⟨hv, hnames⟩ := hnames
    rw [List.foldl_cons]
    obtain ⟨htree, hlinks, hframe⟩ := ih hnames (sweepEntry refused k v)
    -- `readdir` lists the two dots among the rest, and the loop skips them
    by_cases hdots : v = [dot] ∨ v = [dot, dot]
    · have hskip : sweepEntry refused k v = k := by
        unfold sweepEntry
        rw [if_neg]
        rintro ⟨h1, h2⟩
        exact hdots.elim h1 h2
      rw [hskip] at htree hlinks hframe ⊢
      refine ⟨htree, fun w => ?_, hframe⟩
      rw [hlinks w]
      have hno : EntryName w → w ≠ v := by
        rintro hw rfl
        exact hdots.elim hw.2.2.1 hw.2.2.2
      constructor
      · rintro (h | ⟨hw, hmem, hr⟩)
        · exact .inl h
        · exact .inr ⟨hw, List.mem_cons_of_mem _ hmem, hr⟩
      · rintro (h | ⟨hw, hmem, hr⟩)
        · exact .inl h
        · exact .inr ⟨hw, (List.mem_cons.mp hmem).resolve_left (hno hw), hr⟩
    · obtain ⟨hentry, hlen⟩ : EntryName v ∧ v.length ≤ 255 := by
        rcases hv with h | h | h
        · exact absurd (.inl h) hdots
        · exact absurd (.inr h) hdots
        · exact h
      have hpass := fun l => sweepEntry_slot refused hentry hlen (k := k) l
      have htemp := (hpass (k.tree.temp, v)).1
      rw [htemp] at htree hlinks hframe
      refine ⟨htree, fun w => ?_, fun l hl => ?_⟩
      · rw [hlinks w, (hpass (k.tree.temp, w)).2.1]
        by_cases hw : w = v
        · subst hw
          cases hr : refused w with
          | true => simp
          | false => simp [hentry]
        · have hne : (k.tree.temp, w) ≠ (k.tree.temp, v) := fun h => hw (Prod.mk.inj h).2
          rw [if_neg fun h => hne h.1, List.mem_cons]
          simp [hw]
      · rw [hframe l hl]
        exact (hpass l).2.2 fun h => hl (h ▸ rfl)

end Sweep

/-! ### The end of the process -/

theorem Reachable.mainLoop {s : Server} (h : Reachable s) (waits : List WaitResult) :
    Reachable (s.mainLoop waits) := by
  induction waits generalizing s with
  | nil => exact h
  | cons x waits ih =>
    cases x with
    | ready batch =>
      apply ih
      rw [serveBatch_run]
      exact h.run _
    | eintr => exact ih h
    | err => exact h

/-- `cleanup` leaves these files of a server that it was called in. -/
structure CleanedUp (d : DirStream) (s : Server) (k : Disk) : Prop where
  /-- The directory is empty exactly if each of its files could be unlinked. -/
  empty : k.Fresh ↔ ∀ w, (s.disk.slot (s.disk.tree.temp, w)).link ≠ none →
    d.opens = true ∧ d.refused w = false
  kept : ∀ w, (s.disk.slot (s.disk.tree.temp, w)).link ≠ none → d.refused w = true →
    (k.slot (k.tree.temp, w)).link ≠ none
  frame : ∀ l, l.1 ≠ s.disk.tree.temp → k.slot l = s.disk.slot l

theorem cleanupTempDirectory_cleanedUp {s : Server} (hs : Reachable s) {d : DirStream}
    (hlists : Lists s.disk d.entries) : CleanedUp d s (cleanupTempDirectory s.disk d) := by
  have hnames : ∀ w ∈ d.entries, w = [dot] ∨ w = [dot, dot] ∨ EntryName w ∧ w.length ≤ 255 := by
    intro w hw
    rcases (hlists w).mp hw with hlink | hdot | hdots
    · exact .inr (.inr (hs.entries w hlink))
    · exact .inl hdot
    · exact .inr (.inl hdots)
  obtain ⟨htree, hlinks, hframe⟩ := sweep_spec d.refused hnames s.disk
  unfold cleanupTempDirectory
  split_ifs with hopens
  · refine ⟨⟨fun hfresh w hlink => ⟨hopens, ?_⟩, fun hall w => ?_⟩, fun w hlink hr => ?_, hframe⟩
    · have hgone := hfresh w
      rw [htree] at hgone
      exact ((hlinks w).mp hgone).resolve_left hlink |>.2.2
    · rw [htree]
      apply (hlinks w).mpr
      by_cases hlink : (s.disk.slot (s.disk.tree.temp, w)).link = none
      · exact .inl hlink
      · exact .inr ⟨(hs.entries w hlink).1, (hlists w).mpr (.inl hlink), (hall w hlink).2⟩
    · rw [htree]
      intro hgone
      rcases (hlinks w).mp hgone with hnone | ⟨-, -, hno⟩
      · exact hlink hnone
      · cases hr.symm.trans hno
  · refine ⟨⟨fun hfresh w hlink => absurd (hfresh w) hlink, fun hall w => ?_⟩,
      fun w hlink _ => hlink, fun _ _ => rfl⟩
    by_contra hlink
    exact hopens (hall w hlink).1

/-- **However `main` ends**, short of a crash, the listening socket and the event loop that it has
opened are closed again, every other socket that was tried too, and no descriptor twice; and behind
`mkdtemp` it ends through `cleanup`, which leaves the temporary directory empty for `rmdir` exactly
if the files that clients have left in it can be unlinked, and touches no file outside of it. -/
theorem main_cleans_up (h : Host) (hfresh : ∀ k ∈ h.mkdtemp, k.Fresh)
    (hend : (serverMain h).status ≠ none) :
    openFds [] (serverMain h).fds = some [] ∧
      (h.argc = 2 → h.vectorOk = true → h.dictionaryOk = true → h.mkdtemp.isSome →
        ∃ s, (serverMain h).served = some s ∧ Reachable s ∧ s.fault = false ∧
          (Lists s.disk h.dir.entries →
            ∃ k, (serverMain h).disk = some k ∧ CleanedUp h.dir s k)) := by
  refine ⟨openFds_serverMain h hend, fun hargc hvector hdictionary hmk => ?_⟩
  obtain ⟨k, hk⟩ := Option.isSome_iff_exists.mp hmk
  have hboot : Reachable (Server.boot k) := ⟨k, [], hfresh k hk, rfl⟩
  have hcleanup : ∀ {s : Server} {status : Nat} {fds : List FdCall} {listenFd loopFd : Option Int},
      Reachable s → s.fault = false → ∃ s',
        (endWith h status fds listenFd loopFd s).served = some s' ∧ Reachable s' ∧
        s'.fault = false ∧ (Lists s'.disk h.dir.entries →
          ∃ k, (endWith h status fds listenFd loopFd s).disk = some k ∧ CleanedUp h.dir s' k) :=
    fun hs hf => ⟨_, rfl, hs, hf, fun hlists => ⟨_, rfl, cleanupTempDirectory_cleanedUp hs hlists⟩⟩
  unfold serverMain at hend ⊢
  rw [if_neg (not_not_intro hargc), if_neg (by simp [hvector]), if_neg (by simp [hdictionary]), hk]
    at hend ⊢
  dsimp only at hend ⊢
  cases hlisten : (createAndBindSocket h.binding).1 with
  | none => exact hcleanup hboot rfl
  | some listenFd =>
    rw [hlisten] at hend
    dsimp only at hend ⊢
    cases hloop : h.eventLoop with
    | none => exact hcleanup hboot rfl
    | some loopFd =>
      rw [hloop] at hend
      dsimp only at hend ⊢
      split_ifs at hend ⊢ with hfault
      · exact absurd rfl hend
      · exact hcleanup (hboot.mainLoop h.waits) (Bool.eq_false_of_not_eq_true hfault)

/-- The first address has no socket and the second is in use; a client uploads `x`, a wait is
interrupted on the way, and the next one fails in the end. -/
def oneUpload : Host where
  argc := 2
  vectorOk := true
  dictionaryOk := true
  mkdtemp := some bareDisk
  binding := ⟨some [⟨none, true⟩, ⟨some 3, false⟩, ⟨some 3, true⟩], true, true, true⟩
  eventLoop := some 4
  waits := [.ready [.listen [.conn 5 ⟨pushBack (ascii "PUT x\n" ++ sizeBytes 1 ++ [7]) [],
      [.room 3], [], []⟩, .eagain]], .eintr, .ready [.client 5 .onRead], .ready [.client 5 .onRead],
    .err]
  dir := ⟨true, [[dot], ascii "x", [dot, dot]], fun _ => false⟩

/-- The file system that the upload leaves. -/
theorem oneUpload_disk : ((Server.boot bareDisk).mainLoop oneUpload.waits).disk
    = (bareDisk.setSlot (1, ascii "x") (bareDisk.slot (1, ascii "x")).create).setContent
        (1, ascii "x") 0 [7] := rfl

theorem oneUpload_lists :
    Lists ((Server.boot bareDisk).mainLoop oneUpload.waits).disk oneUpload.dir.entries := by
  intro w
  rw [oneUpload_disk]
  show w ∈ [[dot], ascii "x", [dot, dot]] ↔ ((Disk.setContent _ _ _ _).slot (1, w)).link ≠ none ∨ _
  by_cases hw : w = ascii "x"
  · subst hw
    refine iff_of_true (by decide) (.inl ?_)
    decide +kernel
  · have hne : ((1, w) : Loc) ≠ (1, ascii "x") := fun h => hw (Prod.mk.inj h).2
    rw [Disk.setContent, Disk.setSlot_slot_of_ne _ _ hne, Disk.setSlot_slot_of_ne _ _ hne]
    simp [hw, bareDisk]

theorem main_cleans_up_oneUpload : openFds [] (serverMain oneUpload).fds = some [] ∧
    ∃ k, (serverMain oneUpload).disk = some k ∧ k.Fresh := by
  obtain ⟨hfds, hend⟩ := main_cleans_up oneUpload (fun k hk => by
    obtain rfl := Option.some.inj hk
    exact bareDisk_fresh) (by decide +kernel)
  obtain ⟨s, hserved, -, -, hclean⟩ := hend rfl rfl rfl rfl
  obtain rfl : (Server.boot bareDisk).mainLoop oneUpload.waits = s := Option.some.inj hserved
  obtain ⟨k, hk, hcleaned⟩ := hclean oneUpload_lists
  exact ⟨hfds, k, hk, hcleaned.empty.mpr fun _ _ => ⟨rfl, rfl⟩⟩

end FileServer
