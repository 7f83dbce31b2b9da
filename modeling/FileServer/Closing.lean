/-
  What `close_and_cleanup` removes.

  It unlinks the file of every PUT that is not in `STATE_DONE`, whether or not the
  connection opened that file, and whether or not its upload was accepted
  (`close_spares_iff`).  `STATE_DONE` means that the whole reply was sent
  (`replySent_iff`).
-/
import FileServer.Deletion
import FileServer.Equiv.Header

namespace FileServer

/-- `close_and_cleanup` is called in the context `k`, for a connection that an event found in the
context `c`: by a handler, or at once for an error. -/
inductive ClosedAt (c : Ctx) : Ctx → Prop
  | error : ClosedAt c c
  | handler {d k : Ctx} (hsteps : Steps c d) (hlive : d.freed = false) (h : Close d k) :
      ClosedAt c k

/-- Only `close_and_cleanup` destroys a connection. -/
theorem Step.close_of_freed {c c' : Ctx} (h : Step c c') (hc : c.freed = false)
    (hc' : c'.freed = true) :
    ∃ k, Close c k ∧ c' = closeAndCleanup k := by
  cases h with
  | close hk => exact ⟨_, hk, rfl⟩
  | quiet hq => cases hq <;> cases hc.symm.trans hc'
  | receive hr => cases hr <;> cases hc.symm.trans hc'
  | begin hb => cases hb <;> cases hc.symm.trans hc'
  | choose hch => cases (hch.freed.trans hc).symm.trans hc'
  | send hs => cases (hs.freed.trans hc).symm.trans hc'
  | fault => cases hc.symm.trans hc'

/-- A connection that is destroyed was closed. -/
theorem Handled.closedAt {c c' : Ctx} (h : Handled c c') (hc : c.freed = false)
    (hc' : c'.freed = true) : ∃ k, ClosedAt c k ∧ c' = closeAndCleanup k := by
  cases h with
  | closed => exact ⟨c, .error, rfl⟩
  | steps hsteps =>
    rcases Relation.ReflTransGen.cases_tail hsteps with rfl | ⟨d, hsteps, hlive, hstep⟩
    · cases hc.symm.trans hc'
    · obtain ⟨k, hk, heq⟩ := hstep.close_of_freed hlive hc'
      exact ⟨k, .handler hsteps hlive hk, heq⟩

/-- The whole reply was sent. -/
def ReplySent (c : Conn) : Prop :=
  ∃ st msg, c.replies = [(st, msg)] ∧ c.sent = responseText st msg

/-- A closing context is as sound as the connection it belongs to. -/
theorem ClosedAt.ok {c k : Ctx} (h : ClosedAt c k) (hok : ConnOk c) :
    ReplyOk k.toConn ∧ UploadOk k.toConn := by
  cases h with
  | error => exact ⟨hok.reply, hok.upload⟩
  | handler hsteps hlive h =>
    have hd := connOk_stable.toKept.steps hsteps hok
    exact ⟨h.replyOk hlive hd.reply, h.uploadOk hd.upload⟩

/-- A PUT is in `STATE_DONE` when its reply is sent. -/
theorem replySent_iff {c : Conn} (hr : ReplyOk c) (hput : c.client.requestVerb = .put) :
    ReplySent c ↔ c.client.state = .done := by
  have hverb : ∀ {v payload}, PayloadOk c v payload → v = .put := fun h => h.verb.symm.trans hput
  have hfirst : ∀ {st rs}, Earlier c.client st rs → rs = [] := fun he =>
    he.resolve_right fun ⟨hlist, _⟩ => by cases hput.symm.trans hlist
  constructor
  · rintro ⟨st, msg, hreplies, hsent⟩
    have hsilent : ¬ (c.sent = [] ∧ c.replies = []) := fun ⟨_, hnil⟩ => by
      cases hnil.symm.trans hreplies
    have hline : ¬ ∃ rs st' msg', LineOk c rs st' msg' := fun ⟨rs, st', msg', h⟩ => by
      obtain rfl := hfirst h.earlier
      obtain ⟨rfl, rfl⟩ := Prod.mk.inj (List.singleton_inj.mp (hreplies.symm.trans h.replies))
      have hlen := congrArg List.length (hsent.symm.trans h.sent)
      have hlt := h.lt
      simp only [textOf, List.flatMap_nil, List.nil_append, List.length_take] at hlen
      omega
    cases hs : c.client.state with
    | recvHeader => exact absurd (hr.silent (.inl hs)) hsilent
    | recvPutSize => exact absurd (hr.silent (.inr (.inl hs))) hsilent
    | recvPutData => exact absurd (hr.silent (.inr (.inr hs))) hsilent
    | sendOk => exact absurd (hr.line (.inl hs)) hline
    | sendError => exact absurd (hr.line (.inr hs)) hline
    | sendGetSize => cases hverb (hr.size hs).1
    | sendGetData =>
      obtain ⟨-, bytes, h, -⟩ := hr.data hs
      cases hverb h
    | sendListData =>
      obtain ⟨buffer, -, -, -, h⟩ := hr.list hs
      cases hverb h
    | done => rfl
  · intro hs
    rcases hr.done hs with ⟨rs, st, msg, h⟩ | ⟨bytes, h, -⟩ | ⟨buffer, h⟩
    · obtain rfl := hfirst h.earlier
      exact ⟨st, msg, h.replies, h.sent⟩
    · cases hverb h
    · cases hverb h

section Unlink

variable {k : Ctx}

/-- An `unlink` removes a file that is there, unless it fails. -/
theorem sysUnlink_disk_eq_iff (p : Path) :
    (k.sysUnlink p).2.disk = k.disk ↔ k.disk.read p = none ∨ k.script.file.1 = .fail := by
  constructor
  · intro h
    by_contra hno
    obtain ⟨hread, hok⟩ := not_or.mp hno
    have hdisk : (k.sysUnlink p).2.disk = (k.disk.unlink p).2 := by
      rcases k.sysUnlink_cases p with ⟨-, -, hfail⟩ | ⟨-, hdisk⟩
      · exact absurd hfail hok
      · exact hdisk
    have hsome : (k.disk.read p).isSome := Option.isSome_iff_ne_none.mpr hread
    cases hres : k.disk.tree.resolve p with
    | entry l =>
      have hlink := k.disk.unlink_link hres
      rw [← hdisk, h] at hlink
      rw [k.disk.read_entry hres, (Disk.lookup_eq_none _).mpr hlink] at hsome
      cases hsome
    | dir d => exact hread (by simp only [Disk.read, hres])
    | none => exact hread (by simp only [Disk.read, hres])
  · rintro (hread | hfail)
    · refine k.sysUnlink_false_disk p ?_
      rcases k.sysUnlink_cases p with ⟨hfalse, -, -⟩ | ⟨hfst, -⟩
      · exact hfalse
      · rw [hfst, Disk.unlink_fst, hread]
        rfl
    · refine k.sysUnlink_false_disk p ?_
      unfold Ctx.sysUnlink
      dsimp only
      rw [if_pos hfail]

/-- What closing leaves unchanged. -/
theorem closeAndCleanup_unchanged_iff :
    Unchanged k.toGlobals (closeAndCleanup k).toGlobals ↔ ¬ k.client.Unlinks ∨
      k.disk.read k.filepath = none ∨ k.script.file.1 = .fail := by
  rw [← sysUnlink_disk_eq_iff]
  have hdisk := closeAndCleanup_disk k
  constructor
  · rintro ⟨-, hsame⟩
    by_cases hu : k.client.Unlinks
    · rw [if_pos hu] at hdisk
      exact .inr (hdisk.symm.trans hsame)
    · exact .inl hu
  · intro h
    refine ⟨closeAndCleanup_serverFiles k, ?_⟩
    by_cases hu : k.client.Unlinks
    · rw [if_pos hu] at hdisk
      exact hdisk.trans (h.resolve_left (not_not_intro hu))
    · rwa [if_neg hu] at hdisk

end Unlink

/-- The upload of the connection is not its own unfinished one. -/
def Foreign (c : Conn) : Prop := c.opened = false ∨ c.accepted = true

/-- **Closing a connection leaves the files of others and its own accepted upload alone exactly
where nothing is unlinked**: the request is no PUT, or its reply was sent, or there is no such
file. -/
theorem close_spares_iff {s : Server} (hs : Reachable s) {conn : Conn} (hmem : conn ∈ s.conns)
    {k : Ctx} (hk : ClosedAt (s.ctx conn) k) :
    (Foreign k.toConn → Unchanged k.toGlobals (closeAndCleanup k).toGlobals) ↔
      ¬ Foreign k.toConn ∨ k.client.requestVerb ≠ .put ∨ ReplySent k.toConn ∨
        k.disk.read k.filepath = none ∨ k.script.file.1 = .fail := by
  have hok := (hk.ok (connOk_stable.reachable hs conn hmem)).1
  rw [closeAndCleanup_unchanged_iff, imp_iff_not_or, ← or_assoc (a := k.client.requestVerb ≠ .put)]
  have hunlinks : ¬ k.client.Unlinks ↔ k.client.requestVerb ≠ .put ∨ ReplySent k.toConn := by
    by_cases hput : k.client.requestVerb = .put
    · rw [replySent_iff hok hput]
      simp [Client.Unlinks, hput]
    · simp [Client.Unlinks, hput]
  rw [hunlinks]

/-- `x` is stored, and a second client begins an upload of `x` without sending its size. -/
def begunAgain : Server := (Server.boot bareDisk).run
  [.accept 5 ⟨pushBack (ascii "PUT x\n" ++ sizeBytes 0) [], [.room 3], [], []⟩,
    .event 5 .onRead, .event 5 .onRead,
    .accept 6 ⟨pushBack (ascii "PUT x\n") [], [], [], []⟩, .event 6 .onRead]

theorem begunAgain_reachable : Reachable begunAgain := ⟨bareDisk, _, bareDisk_fresh, rfl⟩

/-- `x` is stored, and a second client has sent its `PUT x` but for the size. -/
def storedTwice : Server := (Server.boot bareDisk).run
  [.accept 5 ⟨pushBack (ascii "PUT x\n" ++ sizeBytes 0) [], [.room 3], [], []⟩,
    .event 5 .onRead, .event 5 .onRead,
    .accept 6 ⟨pushBack (ascii "PUT x\n" ++ sizeBytes 0) [], [.room 3], [], []⟩, .event 6 .onRead]

theorem storedTwice_reachable : Reachable storedTwice := ⟨bareDisk, _, bareDisk_fresh, rfl⟩

/-- The second upload of a stored name is closed when its reply is sent. -/
theorem close_spares_storedTwice : some (ascii "x") ∈ storedTwice.serverFiles.contents ∧
    ∃ conn ∈ storedTwice.conns, conn.freed = false ∧ conn.client.requestVerb = .put ∧
      ∃ k, ClosedAt (storedTwice.ctx conn) k ∧
        Unchanged k.toGlobals (closeAndCleanup k).toGlobals := by
  obtain ⟨conn, hi, hlive, hput⟩ : ∃ conn ∈ storedTwice.conns[1]?, conn.freed = false ∧
      conn.client.requestVerb = .put := by decide +kernel
  obtain ⟨conn', hi', hfreed, hacc, hreplies, hsent⟩ :
      ∃ conn ∈ (storedTwice.act (.event 6 .onRead)).conns[1]?, conn.freed = true ∧
        conn.accepted = true ∧ conn.replies = [(.ok, [])] ∧ conn.sent = responseText .ok [] := by
    decide +kernel
  have hmem := List.mem_of_getElem? hi
  refine ⟨by decide +kernel, conn, hmem, hlive, hput, ?_⟩
  cases Server.act_moved storedTwice_reachable.mapInv hi' with
  | same hi₀ =>
    obtain rfl := Option.some.inj (hi.symm.trans hi₀)
    cases hlive.symm.trans hfreed
  | new hlen => exact absurd hlen (by decide +kernel)
  | own _ hi₀ _ h hconn =>
    obtain rfl := Option.some.inj (hi.symm.trans hi₀)
    subst hconn
    obtain ⟨k, hk, rfl⟩ := h.closedAt hlive hfreed
    rw [closeAndCleanup_accepted] at hacc
    rw [closeAndCleanup_replies] at hreplies
    rw [closeAndCleanup_sent] at hsent
    exact ⟨k, hk, (close_spares_iff storedTwice_reachable hmem hk).mpr
      (.inr (.inr (.inl ⟨.ok, [], hreplies, hsent⟩))) (.inr hacc)⟩

/-- The second client hangs up, and the file of the first one is gone. -/
theorem not_close_spares_begunAgain : ¬ ∀ s, Reachable s → ∀ conn ∈ s.conns, conn.freed = false →
    ∀ k, ClosedAt (s.ctx conn) k → Foreign k.toConn →
      Unchanged k.toGlobals (closeAndCleanup k).toGlobals := by
  intro h
  obtain ⟨conn, hi, hlive, hfresh, hdisk⟩ : ∃ conn ∈ begunAgain.conns[1]?, conn.freed = false ∧
      conn.opened = false ∧ ((begunAgain.disk.read (begunAgain.ctx conn).filepath).isSome ∧
        (closeAndCleanup (begunAgain.ctx conn)).disk.read (begunAgain.ctx conn).filepath = none) := by
    decide +kernel
  have hsame := h _ begunAgain_reachable conn (List.mem_of_getElem? hi) hlive _ .error (.inl hfresh)
  rw [hsame.disk] at hdisk
  obtain ⟨hsome, hnone⟩ := hdisk
  rw [show begunAgain.disk.read (begunAgain.ctx conn).filepath = none from hnone] at hsome
  cases hsome

end FileServer
