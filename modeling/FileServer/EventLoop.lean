/-
  The two implementations of `event_loop.h`: `event_loop_epoll.c` and
  `event_loop_kqueue.c`.

  What the kernel keeps for a loop is a table; `epollCtl` and `kevent` are the system
  calls on it.  They fail on a descriptor that is not open (`EBADF`), or for what is in
  the table (`EEXIST`, `ENOENT`); that the kernel runs out of memory or of watches
  (`ENOMEM`, `ENOSPC`) is left out.  `Watching` is what both are for: which descriptors
  are open, which are registered, and for what.  `backends_agree_iff` says for which
  calls the two cannot be told apart.
-/
import FileServer.Lib.OrderedMap
import FileServer.Server

namespace FileServer

/-- The descriptors that the process has open, and the kernel's table of its loop. -/
structure Kernel (T : Type) where
  openFds : List Int
  table : T

/-! ### epoll -/

/-- The bits of `epoll_event.events` that are used. -/
structure EpollEvents where
  epollin : Bool
  epollout : Bool
  epollerr : Bool
  epollhup : Bool
  epollet : Bool
  deriving DecidableEq

/-- The interest list of an epoll instance. -/
abbrev EpollTable := OrderedMap Int EpollEvents

/-- The operations of `epoll_ctl`. -/
inductive EpollOp
  | add | mod | del
  deriving DecidableEq

/-- `epoll_ctl`: `-1` for `EBADF`, `EEXIST` and `ENOENT`. -/
def epollCtl (k : Kernel EpollTable) (op : EpollOp) (fd : Int) (event : EpollEvents) :
    Int × Kernel EpollTable :=
  if fd ∈ k.openFds then
    match op with
    | .add =>
      if fd ∈ k.table.keys then (-1, k) else (0, { k with table := k.table.put fd event })
    | .mod =>
      if fd ∈ k.table.keys then (0, { k with table := k.table.put fd event }) else (-1, k)
    | .del => if fd ∈ k.table.keys then (0, { k with table := k.table.delete fd }) else (-1, k)
  else (-1, k)

namespace Epoll

/-- `to_epoll_events`. -/
def toEpollEvents (events : Events) : EpollEvents := ⟨events.read, events.write, false, false, true⟩

/-- `event_loop_add`. -/
def eventLoopAdd (k : Kernel EpollTable) (fd : Int) (events : Events) : Int × Kernel EpollTable :=
  epollCtl k .add fd (toEpollEvents events)

/-- `event_loop_modify`. -/
def eventLoopModify (k : Kernel EpollTable) (fd : Int) (events : Events) :
    Int × Kernel EpollTable :=
  epollCtl k .mod fd (toEpollEvents events)

/-- `event_loop_remove`. -/
def eventLoopRemove (k : Kernel EpollTable) (fd : Int) : Int × Kernel EpollTable :=
  epollCtl k .del fd ⟨false, false, false, false, false⟩

/-- An element of the loop of `event_loop_wait`. -/
def report (e : Int × EpollEvents) : Int × Events :=
  (e.1, ⟨e.2.epollin, e.2.epollout, e.2.epollerr || e.2.epollhup⟩)

end Epoll

/-! ### kqueue -/

/-- `EVFILT_READ` and `EVFILT_WRITE`. -/
inductive EvFilter
  | read | write
  deriving DecidableEq

/-- The knotes of a kqueue. -/
abbrev KqueueTable := List (Int × EvFilter)

/-- The flags of a change: `EV_ADD | EV_ENABLE`, or `EV_DELETE`. -/
inductive KeventFlags
  | addEnable | delete
  deriving DecidableEq

/-- The `errno` of a change that fails. -/
inductive Errno
  | ebadf | enoent
  deriving DecidableEq

/-- `kevent` with one change: whether it fails, and the knotes behind it. -/
def kevent (k : Kernel KqueueTable) (fd : Int) (filter : EvFilter) (flags : KeventFlags) :
    Option Errno × Kernel KqueueTable :=
  if fd ∈ k.openFds then
    match flags with
    | .addEnable => (none, { k with table := k.table.insert (fd, filter) })
    | .delete =>
      if (fd, filter) ∈ k.table then
        (none, { k with table := k.table.filter fun x => x ≠ (fd, filter) })
      else (some .enoent, k)
  else (some .ebadf, k)

namespace Kqueue

/-- `update_filter`. -/
def updateFilter (k : Kernel KqueueTable) (fd : Int) (filter : EvFilter) (flags : KeventFlags)
    (ignoreMissing : Bool) : Int × Kernel KqueueTable :=
  let r := kevent k fd filter flags
  match r.1 with
  | none => (0, r.2)
  | some errno => if ignoreMissing ∧ errno = .enoent then (0, r.2) else (-1, r.2)

/-- `event_loop_add`. -/
def eventLoopAdd (k : Kernel KqueueTable) (fd : Int) (events : Events) :
    Int × Kernel KqueueTable :=
  let r := if events.read then updateFilter k fd .read .addEnable false else (0, k)
  if r.1 = -1 then r
  else
    let w := if events.write then updateFilter r.2 fd .write .addEnable false else (0, r.2)
    if w.1 = -1 then w else (0, w.2)

/-- `event_loop_modify`. -/
def eventLoopModify (k : Kernel KqueueTable) (fd : Int) (events : Events) :
    Int × Kernel KqueueTable :=
  let r := updateFilter k fd .read (if events.read then .addEnable else .delete) true
  if r.1 = -1 then r
  else
    let w := updateFilter r.2 fd .write (if events.write then .addEnable else .delete) true
    if w.1 = -1 then w else (0, w.2)

/-- `event_loop_remove`. -/
def eventLoopRemove (k : Kernel KqueueTable) (fd : Int) : Int × Kernel KqueueTable :=
  let readResult := updateFilter k fd .read .delete true
  let writeResult := updateFilter readResult.2 fd .write .delete true
  if readResult.1 = -1 ∧ writeResult.1 = -1 then (-1, writeResult.2) else (0, writeResult.2)

/-- An element of the array that `kevent` fills. -/
structure Kevent where
  ident : Int
  filter : EvFilter
  /-- `EV_ERROR`. -/
  evError : Bool
  deriving DecidableEq

/-- An element of the loop of `event_loop_wait`. -/
def report (e : Kevent) : Int × Events :=
  (e.ident, ⟨e.filter = .read, e.filter = .write, e.evError⟩)

end Kqueue

/-! ### Calls -/

/-- Whether a kind of event is asked for. -/
def Events.has (ev : Events) : Interest → Bool
  | .read => ev.read
  | .write => ev.write

/-- `EPOLLIN` or `EPOLLOUT`. -/
def EpollEvents.has (ev : EpollEvents) : Interest → Bool
  | .read => ev.epollin
  | .write => ev.epollout

/-- The filter of a kind of event. -/
def EvFilter.of : Interest → EvFilter
  | .read => .read
  | .write => .write

/-- What a process does to a loop. -/
inductive LoopCall
  /-- A descriptor is opened, by `accept` or `socket`. -/
  | opened (fd : Int)
  | add (fd : Int) (events : Events)
  | modify (fd : Int) (events : Events)
  | remove (fd : Int)
  /-- `close` of a descriptor, with which the kernel takes it out of every loop. -/
  | close (fd : Int)
  deriving DecidableEq

/-- An implementation of `event_loop.h`, with the kernel's part of it. -/
structure Backend where
  Table : Type
  /-- An element of the array that the kernel fills. -/
  Ready : Type
  create : Table
  call : Table → LoopCall → Int × Table
  /-- Whether the kernel watches a descriptor for a kind of event. -/
  Watches : Table → Int → Interest → Prop
  /-- What the kernel may report for a table. -/
  Reports : Table → List Ready → Prop
  report : Ready → Int × Events

namespace Backend

variable (B : Backend)

/-- The results of some calls. -/
def results : B.Table → List LoopCall → List Int
  | _, [] => []
  | t, x :: xs => (B.call t x).1 :: results (B.call t x).2 xs

/-- The table behind some calls. -/
def after (t : B.Table) (xs : List LoopCall) : B.Table := xs.foldl (fun t x => (B.call t x).2) t

end Backend

/-- `event_loop_epoll.c`.  A descriptor is reported once, with events that it is registered for, and
with `EPOLLERR` and `EPOLLHUP` at any time. -/
def epoll : Backend where
  Table := Kernel EpollTable
  Ready := Int × EpollEvents
  create := ⟨[], []⟩
  call := fun k x =>
    match x with
    | .opened fd => (0, { k with openFds := k.openFds.insert fd })
    | .add fd events => Epoll.eventLoopAdd k fd events
    | .modify fd events => Epoll.eventLoopModify k fd events
    | .remove fd => Epoll.eventLoopRemove k fd
    | .close fd => (0, ⟨k.openFds.filter fun d => d ≠ fd, k.table.delete fd⟩)
  Watches := fun k fd i => ∃ event, k.table.get fd = some event ∧ event.has i = true
  Reports := fun k es => (es.map Prod.fst).Nodup ∧
    ∀ e ∈ es, ∃ event, k.table.get e.1 = some event ∧ ∀ i, e.2.has i = true → event.has i = true
  report := Epoll.report

/-- `event_loop_kqueue.c`.  A knote is reported once. -/
def kqueue : Backend where
  Table := Kernel KqueueTable
  Ready := Kqueue.Kevent
  create := ⟨[], []⟩
  call := fun k x =>
    match x with
    | .opened fd => (0, { k with openFds := k.openFds.insert fd })
    | .add fd events => Kqueue.eventLoopAdd k fd events
    | .modify fd events => Kqueue.eventLoopModify k fd events
    | .remove fd => Kqueue.eventLoopRemove k fd
    | .close fd => (0, ⟨k.openFds.filter fun d => d ≠ fd, k.table.filter fun x => x.1 ≠ fd⟩)
  Watches := fun k fd i => (fd, EvFilter.of i) ∈ k.table
  Reports := fun k es => (es.map fun e => (e.ident, e.filter)).Nodup ∧
    ∀ e ∈ es, (e.ident, e.filter) ∈ k.table
  report := Kqueue.report

/-! ### What a loop is for -/

/-- What a loop knows of a descriptor. -/
inductive Descriptor
  | closed
  /-- Open, and not in the loop. -/
  | idle
  | registered (events : Events)
  deriving DecidableEq

/-- What a descriptor is registered for. -/
def Descriptor.events? : Descriptor → Option Events
  | registered events => some events
  | _ => none

theorem Descriptor.events?_eq_some {d : Descriptor} {events : Events} :
    d.events? = some events ↔ d = .registered events := by
  cases d <;> simp [events?]

/-- Which descriptors are open, which are registered, and for what. -/
abbrev Watching := Int → Descriptor

namespace Watching

/-- Before anything is opened. -/
def none : Watching := fun _ => .closed

/-- Registrations with one entry replaced. -/
def set (w : Watching) (fd : Int) (entry : Descriptor) : Watching :=
  fun d => if d = fd then entry else w d

/-- What a call is to do.  On a closed descriptor it does nothing. -/
def call (w : Watching) : LoopCall → Watching
  | .opened fd => if w fd = .closed then w.set fd .idle else w
  | .add fd events => if w fd = .closed then w else w.set fd (.registered events)
  | .modify fd events => if w fd = .closed then w else w.set fd (.registered events)
  | .remove fd => if w fd = .closed then w else w.set fd .idle
  | .close fd => w.set fd .closed

/-- What a call is to return. -/
def result (w : Watching) : LoopCall → Int
  | .add fd _ | .modify fd _ | .remove fd => if w fd = .closed then -1 else 0
  | _ => 0

/-- A descriptor is added when it is open and not registered, and modified and removed when it is
registered. -/
def Allows (w : Watching) : LoopCall → Prop
  | .add fd _ => w fd = .idle
  | .modify fd _ => w fd ≠ .closed ∧ w fd ≠ .idle
  | .remove fd => w fd ≠ .closed ∧ w fd ≠ .idle
  | _ => True

/-- A descriptor is not added again, nor modified or removed while it is open and not registered;
and a closed one is not added for nothing. -/
def Agrees (w : Watching) : LoopCall → Prop
  | .add fd events => w fd = .idle ∨ w fd = .closed ∧ (events.read = true ∨ events.write = true)
  | .modify fd _ => w fd ≠ .idle
  | .remove fd => w fd ≠ .idle
  | _ => True

/-- Each of some calls meets the condition `P` when it comes. -/
def Throughout (P : Watching → LoopCall → Prop) : Watching → List LoopCall → Prop
  | _, [] => True
  | w, x :: xs => P w x ∧ Throughout P (w.call x) xs

instance (w : Watching) (x : LoopCall) : Decidable (w.Agrees x) :=
  match x with
  | .add fd events => inferInstanceAs
      (Decidable (w fd = .idle ∨ w fd = .closed ∧ (events.read = true ∨ events.write = true)))
  | .modify fd _ => inferInstanceAs (Decidable (w fd ≠ .idle))
  | .remove fd => inferInstanceAs (Decidable (w fd ≠ .idle))
  | .opened _ => inferInstanceAs (Decidable True)
  | .close _ => inferInstanceAs (Decidable True)

instance decidableThroughout (P : Watching → LoopCall → Prop) [∀ w x, Decidable (P w x)] :
    (w : Watching) → (xs : List LoopCall) → Decidable (Throughout P w xs)
  | _, [] => inferInstanceAs (Decidable True)
  | w, x :: xs =>
    have := decidableThroughout P (w.call x) xs
    inferInstanceAs (Decidable (P w x ∧ Throughout P (w.call x) xs))

/-- The registrations behind some calls. -/
def after (w : Watching) (xs : List LoopCall) : Watching := xs.foldl call w

/-- What some calls are to return. -/
def results : Watching → List LoopCall → List Int
  | _, [] => []
  | w, x :: xs => w.result x :: results (w.call x) xs

variable {w : Watching} {fd d : Int} {entry : Descriptor} {x : LoopCall}

theorem set_self (w : Watching) (fd : Int) (entry : Descriptor) : w.set fd entry fd = entry :=
  if_pos rfl

theorem set_of_ne (w : Watching) (h : d ≠ fd) (entry : Descriptor) : w.set fd entry d = w d :=
  if_neg h

/-- What is allowed is to succeed, and the implementations agree on it. -/
theorem Allows.agrees (h : w.Allows x) : w.Agrees x ∧ w.result x = 0 := by
  cases x with
  | add fd events => exact ⟨.inl h, if_neg (by rw [show w fd = .idle from h]; simp)⟩
  | modify fd events => exact ⟨h.2, if_neg h.1⟩
  | remove fd => exact ⟨h.2, if_neg h.1⟩
  | opened fd => exact ⟨trivial, rfl⟩
  | close fd => exact ⟨trivial, rfl⟩

end Watching

/-! ### Refinement -/

/-- A descriptor is in the list exactly if it is open. -/
def Watching.Opened (w : Watching) (fds : List Int) : Prop := ∀ fd, fd ∈ fds ↔ w fd ≠ .closed

namespace Watching.Opened

variable {w : Watching} {fds : List Int}

theorem opened (h : w.Opened fds) (fd : Int) : (w.call (.opened fd)).Opened (fds.insert fd) := by
  intro d
  rw [List.mem_insert_iff, h d]
  by_cases hd : d = fd
  · subst hd
    refine iff_of_true (.inl rfl) ?_
    rw [Watching.call]
    split_ifs with hw
    · rw [set_self]
      simp
    · exact hw
  · rw [Watching.call]
    split_ifs with hw
    · rw [set_of_ne w hd]
      exact or_iff_right hd
    · exact or_iff_right hd

theorem closed (h : w.Opened fds) (fd : Int) :
    (w.call (.close fd)).Opened (fds.filter fun d => d ≠ fd) := by
  intro d
  rw [List.mem_filter, h d]
  by_cases hd : d = fd
  · simp [Watching.call, Watching.set, hd]
  · simp [Watching.call, Watching.set, hd]

/-- A call for an open descriptor leaves it open. -/
theorem set (h : w.Opened fds) {fd : Int} (hw : w fd ≠ .closed) {entry : Descriptor}
    (he : entry ≠ .closed) : (w.set fd entry).Opened fds := by
  intro d
  rw [h d]
  by_cases hd : d = fd
  · subst hd
    rw [set_self]
    exact iff_of_true hw he
  · rw [set_of_ne w hd]

end Watching.Opened

/-- The kernel's part of an epoll instance is these registrations. -/
structure Epoll.Holds (k : Kernel EpollTable) (w : Watching) : Prop where
  opened : w.Opened k.openFds
  table : ∀ fd, OrderedMap.get k.table fd = (w fd).events?.map Epoll.toEpollEvents

/-- The kernel's part of a kqueue is these registrations. -/
structure Kqueue.Holds (k : Kernel KqueueTable) (w : Watching) : Prop where
  opened : w.Opened k.openFds
  table : ∀ fd,
    ((fd, .read) ∈ k.table ↔ ∃ ev, (w fd).events? = some ev ∧ ev.read = true) ∧
    ((fd, .write) ∈ k.table ↔ ∃ ev, (w fd).events? = some ev ∧ ev.write = true)

section Epoll

variable {k : Kernel EpollTable} {w : Watching} {x : LoopCall} {xs : List LoopCall} {fd : Int}

theorem Epoll.Holds.mem_keys (h : Epoll.Holds k w) (hw : w fd ≠ .closed) :
    fd ∈ OrderedMap.keys k.table ↔ w fd ≠ .idle := by
  rw [← not_iff_not, ← OrderedMap.get_eq_none, h.table fd, Option.map_eq_none_iff, not_not]
  cases hfd : w fd with
  | closed => exact absurd hfd hw
  | idle => simp [Descriptor.events?]
  | registered events => simp [Descriptor.events?]

theorem Epoll.Holds.put (h : Epoll.Holds k w) (hw : w fd ≠ .closed) (events : Events) :
    Epoll.Holds { k with table := k.table.put fd (Epoll.toEpollEvents events) }
      (w.set fd (.registered events)) where
  opened := h.opened.set hw (by simp)
  table := fun d => by
    rw [OrderedMap.get_put]
    unfold Watching.set
    split_ifs
    · rfl
    · exact h.table d

/-- A descriptor that is not registered is not in the table. -/
theorem Epoll.Holds.get_delete (h : Epoll.Holds k w) (fd : Int) {entry : Descriptor}
    (he : entry.events? = none) (d : Int) : OrderedMap.get (OrderedMap.delete k.table fd) d
      = (w.set fd entry d).events?.map Epoll.toEpollEvents := by
  rw [OrderedMap.get_delete]
  unfold Watching.set
  split_ifs
  · rw [he]
    rfl
  · exact h.table d

theorem epollCtl_closed (hw : fd ∉ k.openFds) (op : EpollOp) (event : EpollEvents) :
    epollCtl k op fd event = (-1, k) := if_neg hw

/-- **epoll** does what it is for on the calls on which the two agree, and refuses the others. -/
theorem epoll_call (h : Epoll.Holds k w) (x : LoopCall) :
    (w.Agrees x → (epoll.call k x).1 = w.result x ∧ Epoll.Holds (epoll.call k x).2 (w.call x)) ∧
    (¬ w.Agrees x → (epoll.call k x).1 = -1) := by
  have hclosed : ∀ {fd}, w fd = .closed → fd ∉ k.openFds := fun hw hmem =>
    (h.opened _).mp hmem hw
  have hopen : ∀ {fd}, w fd ≠ .closed → fd ∈ k.openFds := fun hw => (h.opened _).mpr hw
  cases x with
  | opened fd =>
    refine ⟨fun _ => ⟨rfl, h.opened.opened fd, fun d => ?_⟩, fun hno => absurd trivial hno⟩
    change OrderedMap.get k.table d = _
    rw [h.table d, Watching.call]
    split_ifs with hw
    · by_cases hd : d = fd
      · rw [hd, Watching.set_self, hw]
        rfl
      · rw [Watching.set_of_ne w hd]
    · rfl
  | add fd events =>
    change (_ → (Epoll.eventLoopAdd k fd events).1 = _ ∧
        Epoll.Holds (Epoll.eventLoopAdd k fd events).2 _) ∧
      (_ → (Epoll.eventLoopAdd k fd events).1 = _)
    rw [Epoll.eventLoopAdd]
    by_cases hw : w fd = .closed
    · rw [epollCtl_closed (hclosed hw)]
      exact ⟨fun _ => ⟨(if_pos hw).symm, by rw [Watching.call, if_pos hw]; exact h⟩, fun _ => rfl⟩
    rw [epollCtl, if_pos (hopen hw)]
    have hmem := h.mem_keys hw
    constructor
    · intro hagrees
      have hidle : w fd = .idle := hagrees.resolve_right fun hc => hw hc.1
      rw [if_neg fun hkey => hmem.mp hkey hidle, Watching.result, if_neg hw, Watching.call,
        if_neg hw]
      exact ⟨rfl, h.put hw events⟩
    · intro hno
      rw [if_pos (hmem.mpr fun hidle => hno (.inl hidle))]
  | modify fd events =>
    change (_ → (Epoll.eventLoopModify k fd events).1 = _ ∧
        Epoll.Holds (Epoll.eventLoopModify k fd events).2 _) ∧
      (_ → (Epoll.eventLoopModify k fd events).1 = _)
    rw [Epoll.eventLoopModify]
    by_cases hw : w fd = .closed
    · rw [epollCtl_closed (hclosed hw)]
      exact ⟨fun _ => ⟨(if_pos hw).symm, by rw [Watching.call, if_pos hw]; exact h⟩, fun _ => rfl⟩
    rw [epollCtl, if_pos (hopen hw)]
    have hmem := h.mem_keys hw
    constructor
    · intro hagrees
      rw [if_pos (hmem.mpr hagrees), Watching.result, if_neg hw, Watching.call, if_neg hw]
      exact ⟨rfl, h.put hw events⟩
    · intro hno
      rw [if_neg fun hkey => hno (hmem.mp hkey)]
  | remove fd =>
    change (_ → (Epoll.eventLoopRemove k fd).1 = _ ∧
      Epoll.Holds (Epoll.eventLoopRemove k fd).2 _) ∧ (_ → (Epoll.eventLoopRemove k fd).1 = _)
    rw [Epoll.eventLoopRemove]
    by_cases hw : w fd = .closed
    · rw [epollCtl_closed (hclosed hw)]
      exact ⟨fun _ => ⟨(if_pos hw).symm, by rw [Watching.call, if_pos hw]; exact h⟩, fun _ => rfl⟩
    rw [epollCtl, if_pos (hopen hw)]
    have hmem := h.mem_keys hw
    constructor
    · intro hagrees
      rw [if_pos (hmem.mpr hagrees), Watching.result, if_neg hw, Watching.call, if_neg hw]
      exact ⟨rfl, h.opened.set hw (by simp), h.get_delete fd rfl⟩
    · intro hno
      rw [if_neg fun hkey => hno (hmem.mp hkey)]
  -- the kernel forgets a closed descriptor; the backend is not asked
  | close fd =>
    exact ⟨fun _ => ⟨rfl, h.opened.closed fd, h.get_delete fd rfl⟩, fun hno => absurd trivial hno⟩

end Epoll

section Kqueue

variable {k : Kernel KqueueTable} {w : Watching} {fd : Int} {filter : EvFilter} {p q : Prop}
  {events : Events} {r r' : Int × Kernel KqueueTable}

/-- A change of one knote went well: it is there if `p`, and the others are as they were. -/
structure Changed (k : Kernel KqueueTable) (fd : Int) (filter : EvFilter) (p : Prop)
    (r : Int × Kernel KqueueTable) : Prop where
  result : r.1 = 0
  openFds : r.2.openFds = k.openFds
  table : ∀ x, x ∈ r.2.table ↔ if x = (fd, filter) then p else x ∈ k.table

/-- A closed descriptor has no knotes to change, and `EBADF` is not ignored. -/
theorem updateFilter_closed (hfd : fd ∉ k.openFds) (filter : EvFilter) (flags : KeventFlags)
    (ignoreMissing : Bool) : Kqueue.updateFilter k fd filter flags ignoreMissing = (-1, k) := by
  unfold Kqueue.updateFilter kevent
  rw [if_neg hfd]
  exact if_neg fun h => by cases h.2

theorem changed_add (hfd : fd ∈ k.openFds) (filter : EvFilter) (ignoreMissing : Bool) :
    Changed k fd filter True (Kqueue.updateFilter k fd filter .addEnable ignoreMissing) := by
  unfold Kqueue.updateFilter kevent
  rw [if_pos hfd]
  refine ⟨rfl, rfl, fun x => ?_⟩
  change x ∈ k.table.insert (fd, filter) ↔ _
  rw [List.mem_insert_iff]
  split_ifs with hx
  · exact iff_of_true (.inl hx) trivial
  · exact or_iff_right hx

theorem changed_delete (hfd : fd ∈ k.openFds) (filter : EvFilter) :
    Changed k fd filter False (Kqueue.updateFilter k fd filter .delete true) := by
  unfold Kqueue.updateFilter kevent
  rw [if_pos hfd]
  dsimp only
  by_cases hmem : (fd, filter) ∈ k.table
  · rw [if_pos hmem]
    refine ⟨rfl, rfl, fun x => ?_⟩
    dsimp only
    rw [List.mem_filter]
    split_ifs with hx
    · exact iff_of_false (by simp [hx]) id
    · simp [hx]
  · -- the knote is not there, and this is what `ignore_missing` is for
    rw [if_neg hmem]
    dsimp only
    rw [if_pos ⟨rfl, rfl⟩]
    refine ⟨rfl, rfl, fun x => ?_⟩
    dsimp only
    split_ifs with hx
    · exact iff_of_false (hx ▸ hmem) id
    · exact Iff.rfl

theorem changed_modify (hfd : fd ∈ k.openFds) (filter : EvFilter) (b : Bool) :
    Changed k fd filter (b = true)
      (Kqueue.updateFilter k fd filter (if b then .addEnable else .delete) true) := by
  cases b with
  | true => simpa using changed_add hfd filter true
  | false => simpa using changed_delete hfd filter

/-- The half of `event_loop_add` for one filter. -/
theorem changed_addIf (hfd : fd ∈ k.openFds) (filter : EvFilter) (b : Bool) :
    Changed k fd filter (b = true ∨ (fd, filter) ∈ k.table)
      (if b then Kqueue.updateFilter k fd filter .addEnable false else (0, k)) := by
  cases b with
  | true => simpa using changed_add hfd filter false
  | false =>
    refine ⟨rfl, rfl, fun x => ?_⟩
    rw [if_neg Bool.false_ne_true]
    split_ifs with hx
    · rw [hx]
      simp
    · exact Iff.rfl

/-- The two halves of a call for an open descriptor. -/
structure BothChanged (k : Kernel KqueueTable) (fd : Int) (p q : Prop)
    (r : Int × Kernel KqueueTable) : Prop where
  result : r.1 = 0
  openFds : r.2.openFds = k.openFds
  table : ∀ d, ((d, EvFilter.read) ∈ r.2.table ↔ if d = fd then p else (d, .read) ∈ k.table) ∧
    ((d, EvFilter.write) ∈ r.2.table ↔ if d = fd then q else (d, .write) ∈ k.table)

theorem Changed.both (hr : Changed k fd .read p r) (hw : Changed r.2 fd .write q r') :
    BothChanged k fd p q (0, r'.2) where
  result := rfl
  openFds := hw.openFds.trans hr.openFds
  table := fun d => by
    constructor
    · dsimp only
      rw [hw.table, if_neg (by simp), hr.table]
      exact iff_of_eq (if_congr (by simp) rfl rfl)
    · dsimp only
      rw [hw.table]
      by_cases hd : d = fd
      · rw [if_pos (by rw [hd]), if_pos hd]
      · rw [if_neg (by simp [hd]), if_neg hd, hr.table, if_neg (by simp)]

theorem eventLoopAdd_open (hfd : fd ∈ k.openFds) (events : Events) :
    BothChanged k fd (events.read = true ∨ (fd, .read) ∈ k.table)
      (events.write = true ∨ (fd, .write) ∈ k.table) (Kqueue.eventLoopAdd k fd events) := by
  have hr := changed_addIf hfd .read events.read
  unfold Kqueue.eventLoopAdd
  dsimp only
  generalize (if events.read = true then Kqueue.updateFilter k fd .read .addEnable false
    else (0, k)) = r at hr ⊢
  have hw := changed_addIf (hr.openFds ▸ hfd) .write events.write
  -- the first filter does not get in the way of the second
  have hsame : (fd, EvFilter.write) ∈ r.2.table ↔ (fd, .write) ∈ k.table :=
    (hr.table _).trans (by rw [if_neg (by simp)])
  rw [propext hsame] at hw
  rw [if_neg (by rw [hr.result]; decide), if_neg (by rw [hw.result]; decide)]
  exact hr.both hw

/-- A filter that is not asked for is deleted whether or not it is there: `ENOENT` is ignored. -/
theorem eventLoopModify_open (hfd : fd ∈ k.openFds) (events : Events) :
    BothChanged k fd (events.read = true) (events.write = true)
      (Kqueue.eventLoopModify k fd events) := by
  have hr := changed_modify hfd .read events.read
  have hw := changed_modify (hr.openFds ▸ hfd) .write events.write
  unfold Kqueue.eventLoopModify
  dsimp only
  rw [if_neg (by rw [hr.result]; decide), if_neg (by rw [hw.result]; decide)]
  exact hr.both hw

/-- The result is `-1` only where both deletions fail, and for an open descriptor none does. -/
theorem eventLoopRemove_open (hfd : fd ∈ k.openFds) :
    BothChanged k fd False False (Kqueue.eventLoopRemove k fd) := by
  have hr := changed_delete hfd .read
  have hw := changed_delete (hr.openFds ▸ hfd) .write
  unfold Kqueue.eventLoopRemove
  dsimp only
  rw [if_neg fun hboth => absurd (hboth.1.symm.trans hr.result) (by decide)]
  exact hr.both hw

theorem eventLoopAdd_closed (hfd : fd ∉ k.openFds)
    (hev : events.read = true ∨ events.write = true) :
    Kqueue.eventLoopAdd k fd events = (-1, k) := by
  unfold Kqueue.eventLoopAdd
  cases hr : events.read with
  | true => simp [updateFilter_closed hfd]
  | false =>
    have hw : events.write = true := hev.resolve_left (by simp [hr])
    simp [hw, updateFilter_closed hfd]

theorem eventLoopAdd_nothing (hr : events.read = false) (hw : events.write = false) :
    Kqueue.eventLoopAdd k fd events = (0, k) := by
  simp [Kqueue.eventLoopAdd, hr, hw]

theorem eventLoopModify_closed (hfd : fd ∉ k.openFds) :
    Kqueue.eventLoopModify k fd events = (-1, k) := by
  simp [Kqueue.eventLoopModify, updateFilter_closed hfd]

theorem eventLoopRemove_closed (hfd : fd ∉ k.openFds) :
    Kqueue.eventLoopRemove k fd = (-1, k) := by
  simp [Kqueue.eventLoopRemove, updateFilter_closed hfd]

/-- Both knotes of a descriptor are changed, and no other one. -/
theorem BothChanged.holds (hr : BothChanged k fd p q r) (h : Kqueue.Holds k w)
    (hw : w fd ≠ .closed) {entry : Descriptor} (he : entry ≠ .closed)
    (hp : p ↔ ∃ ev, entry.events? = some ev ∧ ev.read = true)
    (hq : q ↔ ∃ ev, entry.events? = some ev ∧ ev.write = true) :
    Kqueue.Holds r.2 (w.set fd entry) where
  opened := hr.openFds ▸ h.opened.set hw he
  table := fun d => by
    rw [(hr.table d).1, (hr.table d).2]
    unfold Watching.set
    split_ifs
    · exact ⟨hp, hq⟩
    · exact h.table d

/-- **kqueue** does what it is for on the calls on which the two agree, and says so of the others
too. -/
theorem kqueue_call (h : Kqueue.Holds k w) (x : LoopCall) :
    (w.Agrees x → (kqueue.call k x).1 = w.result x ∧
      Kqueue.Holds (kqueue.call k x).2 (w.call x)) ∧
    (¬ w.Agrees x → (kqueue.call k x).1 = 0) := by
  have hclosed : ∀ {fd}, w fd = .closed → fd ∉ k.openFds := fun hw hmem =>
    (h.opened _).mp hmem hw
  have hopen : ∀ {fd}, w fd ≠ .closed → fd ∈ k.openFds := fun hw => (h.opened _).mpr hw
  cases x with
  | opened fd =>
    refine ⟨fun _ => ⟨rfl, h.opened.opened fd, fun d => ?_⟩, fun hno => absurd trivial hno⟩
    change ((d, EvFilter.read) ∈ k.table ↔ _) ∧ ((d, EvFilter.write) ∈ k.table ↔ _)
    rw [(h.table d).1, (h.table d).2, Watching.call]
    split_ifs with hw
    · by_cases hd : d = fd
      · rw [hd, Watching.set_self, hw]
        exact ⟨Iff.rfl, Iff.rfl⟩
      · rw [Watching.set_of_ne w hd]
        exact ⟨Iff.rfl, Iff.rfl⟩
    · exact ⟨Iff.rfl, Iff.rfl⟩
  | add fd events =>
    change (_ → (Kqueue.eventLoopAdd k fd events).1 = _ ∧
      Kqueue.Holds (Kqueue.eventLoopAdd k fd events).2 _) ∧
      (_ → (Kqueue.eventLoopAdd k fd events).1 = _)
    by_cases hw : w fd = .closed
    · constructor
      · intro hagrees
        have hev := (hagrees.resolve_left (by rw [hw]; simp)).2
        rw [eventLoopAdd_closed (hclosed hw) hev, Watching.result, if_pos hw, Watching.call,
          if_pos hw]
        exact ⟨rfl, h⟩
      · intro hno
        have hev : ¬ (events.read = true ∨ events.write = true) := fun hev =>
          hno (.inr ⟨hw, hev⟩)
        rw [eventLoopAdd_nothing (by simpa using fun hr => hev (.inl hr))
          (by simpa using fun hr => hev (.inr hr))]
    have hboth := eventLoopAdd_open (hopen hw) events
    refine ⟨fun hagrees => ?_, fun _ => hboth.result⟩
    have hidle : w fd = .idle := hagrees.resolve_right fun hc => hw hc.1
    rw [hboth.result, Watching.result, if_neg hw, Watching.call, if_neg hw]
    refine ⟨rfl, hboth.holds h hw (by simp) ?_ ?_⟩
    · rw [(h.table fd).1, hidle]
      simp [Descriptor.events?]
    · rw [(h.table fd).2, hidle]
      simp [Descriptor.events?]
  | modify fd events =>
    change (_ → (Kqueue.eventLoopModify k fd events).1 = _ ∧
      Kqueue.Holds (Kqueue.eventLoopModify k fd events).2 _) ∧
      (_ → (Kqueue.eventLoopModify k fd events).1 = _)
    by_cases hw : w fd = .closed
    · rw [eventLoopModify_closed (hclosed hw), Watching.result, if_pos hw, Watching.call,
        if_pos hw]
      exact ⟨fun _ => ⟨rfl, h⟩, fun hno => absurd (by rw [Watching.Agrees, hw]; simp) hno⟩
    have hboth := eventLoopModify_open (hopen hw) events
    rw [hboth.result, Watching.result, if_neg hw, Watching.call, if_neg hw]
    exact ⟨fun _ => ⟨rfl, hboth.holds h hw (by simp) (by simp [Descriptor.events?])
      (by simp [Descriptor.events?])⟩, fun _ => rfl⟩
  | remove fd =>
    change (_ → (Kqueue.eventLoopRemove k fd).1 = _ ∧
      Kqueue.Holds (Kqueue.eventLoopRemove k fd).2 _) ∧
      (_ → (Kqueue.eventLoopRemove k fd).1 = _)
    by_cases hw : w fd = .closed
    · rw [eventLoopRemove_closed (hclosed hw), Watching.result, if_pos hw, Watching.call,
        if_pos hw]
      exact ⟨fun _ => ⟨rfl, h⟩, fun hno => absurd (by rw [Watching.Agrees, hw]; simp) hno⟩
    have hboth := eventLoopRemove_open (hopen hw)
    rw [hboth.result, Watching.result, if_neg hw, Watching.call, if_neg hw]
    exact ⟨fun _ => ⟨rfl, hboth.holds h hw (by simp) (by simp [Descriptor.events?])
      (by simp [Descriptor.events?])⟩, fun _ => rfl⟩
  | close fd =>
    refine ⟨fun _ => ⟨rfl, h.opened.closed fd, fun d => ?_⟩, fun hno => absurd trivial hno⟩
    change ((d, EvFilter.read) ∈ k.table.filter (fun x => x.1 ≠ fd) ↔ _) ∧
      ((d, EvFilter.write) ∈ k.table.filter (fun x => x.1 ≠ fd) ↔ _)
    rw [List.mem_filter, List.mem_filter]
    by_cases hd : d = fd
    · simp [Watching.call, Watching.set, hd, Descriptor.events?]
    · simp only [Watching.call, Watching.set, hd, ne_eq, decide_not, decide_false, Bool.not_false,
        and_true, if_false]
      exact h.table d

/-- Two knotes of one descriptor are registrations for both kinds of event. -/
theorem Kqueue.Holds.not_both (h : Kqueue.Holds k w)
    (hone : ∀ ev, w fd = .registered ev → ¬ (ev.read = true ∧ ev.write = true))
    (hread : (fd, .read) ∈ k.table) : (fd, .write) ∉ k.table := by
  intro hwrite
  obtain ⟨ev, hev, hr⟩ := (h.table fd).1.mp hread
  obtain ⟨ev', hev', hw⟩ := (h.table fd).2.mp hwrite
  obtain rfl := Option.some.inj (hev.symm.trans hev')
  exact hone ev (Descriptor.events?_eq_some.mp hev) ⟨hr, hw⟩

end Kqueue

/-! ### The two implementations -/

/-- The registrations and the two tables go together through calls on which the two agree; the first
call that is none is refused by epoll and done by kqueue. -/
theorem results_eq_iff {k : Kernel EpollTable} {k' : Kernel KqueueTable} {w : Watching}
    (h : Epoll.Holds k w) (h' : Kqueue.Holds k' w) (xs : List LoopCall) :
    epoll.results k xs = kqueue.results k' xs ↔ Watching.Throughout Watching.Agrees w xs := by
  induction xs generalizing k k' w with
  | nil => exact iff_of_true rfl trivial
  | cons x xs ih =>
    obtain ⟨hagrees, hrefused⟩ := epoll_call h x
    obtain ⟨hagrees', hdone⟩ := kqueue_call h' x
    change (epoll.call k x).1 :: epoll.results (epoll.call k x).2 xs
      = (kqueue.call k' x).1 :: kqueue.results (kqueue.call k' x).2 xs ↔
        w.Agrees x ∧ Watching.Throughout Watching.Agrees (w.call x) xs
    rw [List.cons.injEq]
    constructor
    · rintro ⟨hfirst, hrest⟩
      have hx : w.Agrees x := by
        by_contra hno
        rw [hrefused hno, hdone hno] at hfirst
        exact absurd hfirst (by decide)
      exact ⟨hx, (ih (hagrees hx).2 (hagrees' hx).2).mp hrest⟩
    · rintro ⟨hx, hrest⟩
      exact ⟨(hagrees hx).1.trans (hagrees' hx).1.symm,
        (ih (hagrees hx).2 (hagrees' hx).2).mpr hrest⟩

theorem epoll_create_holds : Epoll.Holds epoll.create Watching.none where
  opened := fun fd => by simp [epoll, Watching.none]
  table := fun fd => rfl

theorem kqueue_create_holds : Kqueue.Holds kqueue.create Watching.none where
  opened := fun fd => by simp [kqueue, Watching.none]
  table := fun fd => by simp [kqueue, Watching.none, Descriptor.events?]

/-- What an implementation is to do, where its tables hold registrations in the sense of `Holds`. -/
structure Backend.Implements (B : Backend) (Holds : B.Table → Watching → Prop) : Prop where
  create : Holds B.create Watching.none
  call : ∀ {t w x}, Holds t w → Watching.Agrees w x →
    (B.call t x).1 = w.result x ∧ Holds (B.call t x).2 (w.call x)
  watches : ∀ {t w fd i}, Holds t w →
    (B.Watches t fd i ↔ ∃ ev, w fd = .registered ev ∧ ev.has i = true)
  /-- Only what is registered is reported. -/
  reports : ∀ {t w es}, Holds t w → B.Reports t es → ∀ e ∈ es, ∃ ev,
    w (B.report e).1 = .registered ev ∧ ∀ i, (B.report e).2.has i = true → ev.has i = true
  /-- Where no descriptor is registered for both kinds of event, none is reported twice. -/
  once : ∀ {t w es}, Holds t w →
    (∀ fd ev, w fd = .registered ev → ¬ (ev.read = true ∧ ev.write = true)) → B.Reports t es →
    (es.map fun e => (B.report e).1).Nodup

theorem epoll_implements : epoll.Implements Epoll.Holds where
  create := epoll_create_holds
  call := fun h hx => (epoll_call h _).1 hx
  watches := by
    rintro k w fd i h
    change (∃ event, OrderedMap.get k.table fd = some event ∧ event.has i = true) ↔ _
    rw [h.table fd]
    cases w fd with
    | closed => simp [Descriptor.events?]
    | idle => simp [Descriptor.events?]
    | registered ev =>
      cases i <;> simp [Descriptor.events?, Epoll.toEpollEvents, EpollEvents.has, Events.has]
  reports := by
    rintro k w es h ⟨-, hes⟩ e he
    obtain ⟨event, hget, hin⟩ := hes e he
    obtain ⟨ev, hev, rfl⟩ := Option.map_eq_some_iff.mp ((h.table e.1).symm.trans hget)
    refine ⟨ev, Descriptor.events?_eq_some.mp hev, fun i hi => ?_⟩
    cases i with
    | read => exact hin .read hi
    | write => exact hin .write hi
  once := fun _ _ hes => hes.1

theorem kqueue_implements : kqueue.Implements Kqueue.Holds where
  create := kqueue_create_holds
  call := fun h hx => (kqueue_call h _).1 hx
  watches := by
    rintro k w fd i h
    simp only [← Descriptor.events?_eq_some]
    cases i with
    | read => exact (h.table fd).1
    | write => exact (h.table fd).2
  -- a report of `kevent` is about one filter, so it is one kind of event
  reports := by
    rintro k w es h ⟨-, hes⟩ e he
    have hmem := hes e he
    obtain ⟨ident, filter, evError⟩ := e
    cases filter with
    | read =>
      obtain ⟨ev, hev, hread⟩ := (h.table ident).1.mp hmem
      refine ⟨ev, Descriptor.events?_eq_some.mp hev, fun i hi => ?_⟩
      cases i with
      | read => exact hread
      | write => cases hi
    | write =>
      obtain ⟨ev, hev, hwrite⟩ := (h.table ident).2.mp hmem
      refine ⟨ev, Descriptor.events?_eq_some.mp hev, fun i hi => ?_⟩
      cases i with
      | read => cases hi
      | write => exact hwrite
  once := by
    rintro k w es h hone ⟨hnodup, hes⟩
    -- two reports of one descriptor would be its two filters, and it has one
    have hboth := fun fd => Kqueue.Holds.not_both h (hone fd)
    refine List.pairwise_map.mpr ((List.pairwise_map.mp hnodup).imp_of_mem ?_)
    rintro ⟨fd, filter, _⟩ ⟨fd', filter', _⟩ he he' hne heq
    obtain rfl : fd = fd' := heq
    have hmem := hes _ he
    have hmem' := hes _ he'
    cases filter <;> cases filter'
    · exact hne rfl
    · exact hboth fd hmem hmem'
    · exact hboth fd hmem' hmem
    · exact hne rfl

namespace Backend.Implements

variable {B : Backend} {Holds : B.Table → Watching → Prop} {t : B.Table} {w : Watching}

theorem after (hB : B.Implements Holds) (h : Holds t w) {xs : List LoopCall}
    (hxs : Watching.Throughout Watching.Agrees w xs) : Holds (B.after t xs) (w.after xs) := by
  induction xs generalizing t w with
  | nil => exact h
  | cons x xs ih => exact ih (hB.call h hxs.1).2 hxs.2

theorem results (hB : B.Implements Holds) (h : Holds t w) {xs : List LoopCall}
    (hxs : Watching.Throughout Watching.Agrees w xs) : B.results t xs = w.results xs := by
  induction xs generalizing t w with
  | nil => rfl
  | cons x xs ih =>
    obtain ⟨hfirst, hnext⟩ := hB.call h hxs.1
    exact congrArg₂ List.cons hfirst (ih hnext hxs.2)

end Backend.Implements

/-- **The two implementations agree** on the results of some calls exactly if no registered
descriptor is added, none that is open and not registered is modified or removed, and no closed one
is added for no event; and then the calls for a closed descriptor fail, the others succeed, and both
loops hold the registrations that the calls ask for. -/
theorem backends_agree_iff (xs : List LoopCall) :
    (epoll.results epoll.create xs = kqueue.results kqueue.create xs ↔
      Watching.Throughout Watching.Agrees .none xs) ∧
    (Watching.Throughout Watching.Agrees .none xs →
      epoll.results epoll.create xs = Watching.results .none xs ∧
      Epoll.Holds (epoll.after epoll.create xs) (Watching.after .none xs) ∧
      Kqueue.Holds (kqueue.after kqueue.create xs) (Watching.after .none xs)) :=
  ⟨results_eq_iff epoll_create_holds kqueue_create_holds xs, fun hxs =>
    ⟨epoll_implements.results epoll_create_holds hxs,
      epoll_implements.after epoll_create_holds hxs,
      kqueue_implements.after kqueue_create_holds hxs⟩⟩

/-- A connection from `accept` to `close`, with a call that comes too late; and a descriptor that is
modified without being registered: epoll refuses that, kqueue adds it. -/
theorem backends_agree_iff_connection :
    epoll.results epoll.create
        [.opened 5, .add 5 .onRead, .modify 5 .onWrite, .remove 5, .close 5, .modify 5 .onRead]
      = kqueue.results kqueue.create
        [.opened 5, .add 5 .onRead, .modify 5 .onWrite, .remove 5, .close 5, .modify 5 .onRead] ∧
    epoll.results epoll.create [.opened 5, .modify 5 .onRead]
      ≠ kqueue.results kqueue.create [.opened 5, .modify 5 .onRead] := by
  refine ⟨(backends_agree_iff _).1.mpr (by decide), fun heq => ?_⟩
  exact absurd ((backends_agree_iff _).1.mp heq) (by decide)

end FileServer
