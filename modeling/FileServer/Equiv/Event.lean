/-
  Invariants between two events.

  `Acted` says what an action does, with the whole event as one function of its
  connection (`serveEvent`).  `Resting` is the rule for what holds of every
  connection between events but not within one: a new connection has it, an event
  restores it, and other connections cannot take it away.
-/
import FileServer.Equiv.Exit

namespace FileServer

/-! ### Whole events -/

/-- What an action does. -/
inductive Acted (s : Server) : Action → Server → Prop
  | idle {a : Action} : Acted s a s
  | accept {fd : Int} {script rest : Script} {grow : Bool} (hfd : ¬ s.fdOpen fd)
      (hrx : rest.rx = script.rx) (htx : rest.tx = script.tx) (hfx : rest.fx = script.fx)
      (hmem : script.mem = [] → grow = true ∧ rest = script) :
      Acted s (.accept fd script) { s with
        fdToClient := dictionarySet s.fdToClient fd (some s.conns.length) grow
        conns := s.conns ++ [newConn fd rest] }
  | noMemory {fd : Int} {script : Script} (hmem : script.mem ≠ []) :
      Acted s (.accept fd script) { s with fault := true }
  | event {fd : Int} {ev : Events} {i : ConnId} {conn : Conn} (hfault : s.fault = false)
      (hget : dictionaryGet s.fdToClient fd = some i) (hi : s.conns[i]? = some conn)
      (hlive : conn.freed = false) :
      Acted s (.event fd ev) (s.put i (serveEvent (s.ctx conn) ev))

theorem Server.act_acted {s : Server} (h : MapInv s) (a : Action) : Acted s a (s.act a) := by
  by_cases hf : s.fault = true
  · have hact : s.act a = s := if_pos hf
    rw [hact]
    exact .idle
  cases a with
  | accept fd script =>
    have hact : s.act (.accept fd script) = acceptConnection s fd script := if_neg hf
    have ht := acceptConnection_turn (s := s) fd script
    rw [hact]
    generalize acceptConnection s fd script = s' at ht
    cases ht with
    | idle => exact .idle
    | accept hfd hrx htx hfx hmem => exact .accept hfd hrx htx hfx hmem
    | noMemory hmem => exact .noMemory hmem
  | event fd ev =>
    have hact : s.act (.event fd ev) = handleEvent s fd ev := if_neg hf
    rw [hact]
    cases hget : dictionaryGet s.fdToClient fd with
    | none =>
      have hidle : handleEvent s fd ev = s := by
        unfold handleEvent
        rw [hget]
      rw [hidle]
      exact .idle
    | some i =>
      obtain ⟨conn, hi, hlive, -⟩ := h.get hget
      rw [handleEvent_eq ev hget hi]
      exact .event (by simpa using hf) hget hi hlive

/-- The parts of an event. -/
theorem serveEvent_cases {c : Ctx} (hc : c.freed = false) (hf : c.fault = false) (ev : Events) :
    serveEvent c ev = closeAndCleanup c ∨
      ∃ d, Steps c d ∧ (serveEvent c ev = d ∨ serveEvent c ev = { d with fault := true }) := by
  unfold serveEvent
  by_cases he : ev.error = true
  · rw [if_pos he]
    exact .inl rfl
  rw [if_neg he]
  right
  have hread : Steps c (if ev.read then handleReadEvent c else c) := by
    split_ifs
    · exact handleReadEvent_steps hc hf
    · exact .refl
  revert hread
  dsimp only
  generalize (if ev.read = true then handleReadEvent c else c) = d
  intro hread
  by_cases hw : ev.write = true
  · rw [if_pos hw]
    by_cases hfreed : d.freed = true
    · rw [if_pos hfreed]
      exact ⟨d, hread, .inr rfl⟩
    · rw [if_neg hfreed]
      by_cases hs : d.client.state ≠ .recvHeader
      · rw [if_pos hs]
        exact ⟨_, hread.trans (handleWriteEvent_steps (by simpa using hfreed)), .inl rfl⟩
      · rw [if_neg hs]
        exact ⟨d, hread, .inl rfl⟩
  · rw [if_neg hw]
    exact ⟨d, hread, .inl rfl⟩

theorem serveEvent_grows {c : Ctx} (hc : c.freed = false) (hf : c.fault = false) (ev : Events) :
    c.disk.Grows (serveEvent c ev).disk := by
  rcases serveEvent_cases hc hf ev with heq | ⟨d, hsteps, heq | heq⟩
  · rw [heq]
    exact closeAndCleanup_grows c
  · rw [heq]
    exact hsteps.grows
  · rw [heq]
    exact hsteps.grows

/-- What every step keeps, an event keeps. -/
theorem Stable.serveEvent {P : Ctx → Prop} (hP : Stable P) {c : Ctx} (hc : c.freed = false)
    (hf : c.fault = false) (h : P c) (ev : Events) : P (serveEvent c ev) := by
  rcases serveEvent_cases hc hf ev with heq | ⟨d, hsteps, heq | heq⟩
  · rw [heq]
    exact hP.close c hc h
  · rw [heq]
    exact hP.toKept.steps hsteps h
  · rw [heq]
    exact hP.globals d _ (.refl _) (fun _ => rfl) (hP.toKept.steps hsteps h)

/-- Where an event leaves its connection: behind the READ part in `d`, and from there behind the
WRITE part. -/
theorem serveEvent_exit {c : Ctx} (hc : c.freed = false) (hf : c.fault = false) (hok : ConnOk c)
    (ev : Events) : (serveEvent c ev).freed = true ∨
      ∃ d, (d = c ∨ ev.read = true ∧ c.client.state.Receiving ∧ d = handleReadEvent c ∧
          Exit c d) ∧
        (serveEvent c ev = d ∨ d.freed = false ∧ d.client.state.Sending ∧
          Awake d (serveEvent c ev)) := by
  unfold serveEvent
  by_cases he : ev.error = true
  · rw [if_pos he]
    exact .inl (closeAndCleanup_freed c)
  rw [if_neg he]
  have hread : ConnOk (if ev.read then handleReadEvent c else c) ∧
      ((if ev.read then handleReadEvent c else c) = c ∨
        ev.read = true ∧ c.client.state.Receiving ∧
          (if ev.read then handleReadEvent c else c) = handleReadEvent c ∧
          Exit c (if ev.read then handleReadEvent c else c)) := by
    split_ifs with hr
    · refine ⟨connOk_stable.toKept.steps (handleReadEvent_steps hc hf) hok, ?_⟩
      rcases c.client.state.cases with hs | hs | hs
      · exact .inr ⟨hr, hs, rfl,
          handleReadEvent_exit hc hs fun hd => (hok.upload.data hd).2.2.2.1⟩
      · exact .inl (handleReadEvent_of_sending hs)
      · cases hc.symm.trans (hok.done hs)
    · exact ⟨hok, .inl rfl⟩
  revert hread
  dsimp only
  generalize (if ev.read = true then handleReadEvent c else c) = d
  rintro ⟨hokd, hread⟩
  by_cases hw : ev.write = true
  · rw [if_pos hw]
    by_cases hfreed : d.freed = true
    · rw [if_pos hfreed]
      exact .inl hfreed
    rw [if_neg hfreed]
    right
    refine ⟨d, hread, ?_⟩
    by_cases hs : d.client.state ≠ .recvHeader
    · rw [if_pos hs]
      rcases d.client.state.cases with hd | hd | hd
      · exact .inl (handleWriteEvent_of_receiving hd)
      · have hlive : d.freed = false := by simpa using hfreed
        exact .inr ⟨hlive, hd, handleWriteEvent_awake hlive hd⟩
      · exact absurd (hokd.done hd) hfreed
    · rw [if_neg hs]
      exact .inl rfl
  · rw [if_neg hw]
    exact .inr ⟨d, hread, .inl rfl⟩

/-! ### Between events -/

/-- An invariant that holds of every connection between events, where every event meets the
condition `Q`. -/
structure Resting (P : Ctx → Prop) (Q : Ctx → Events → Prop) : Prop where
  new : ∀ fd script g, P { newConn fd script with toGlobals := g }
  event : ∀ c ev, c.freed = false → c.fault = false → Q c ev → P c → P (serveEvent c ev)
  globals : ∀ (c : Ctx) g, c.disk.Grows g.disk → (c.fault = true → g.fault = true) → P c →
    P { c with toGlobals := g }

/-- The event that an action hands to a connection meets the condition `Q`. -/
def Allows (Q : Ctx → Events → Prop) (s : Server) (a : Action) : Prop :=
  ∀ fd ev i conn, a = .event fd ev → dictionaryGet s.fdToClient fd = some i →
    s.conns[i]? = some conn → Q (s.ctx conn) ev

namespace Resting

variable {P : Ctx → Prop} {Q : Ctx → Events → Prop} {s : Server}

theorem act (hP : Resting P Q) (hm : MapInv s) {a : Action} (ha : Allows Q s a)
    (hs : ∀ conn ∈ s.conns, P (s.ctx conn)) :
    ∀ conn ∈ (s.act a).conns, P ((s.act a).ctx conn) := by
  have hacted := Server.act_acted hm a
  generalize s.act a = s' at hacted
  cases hacted with
  | idle => exact hs
  | accept =>
    intro conn hmem
    rcases List.mem_append.mp hmem with hmem | hmem
    · exact hP.globals (s.ctx conn) _ (.refl _) id (hs conn hmem)
    · obtain rfl := List.mem_singleton.mp hmem
      exact hP.new _ _ _
  | noMemory =>
    intro conn hmem
    exact hP.globals (s.ctx conn) _ (.refl _) (fun _ => rfl) (hs conn hmem)
  | @event fd ev i conn hfault hget hi hlive =>
    intro conn' hmem
    rcases List.mem_or_eq_of_mem_set hmem with hmem | rfl
    · refine hP.globals (s.ctx conn') _ (serveEvent_grows (c := s.ctx conn) hlive hfault ev)
        (fun hf => ?_) (hs conn' hmem)
      cases hfault.symm.trans hf
    · exact hP.event (s.ctx conn) ev hlive hfault (ha fd ev i conn rfl hget hi)
        (hs conn (List.mem_of_getElem? hi))

/-- **An invariant between events holds of every connection in every state that a run reaches.** -/
theorem run (hP : Resting P Q) (hm : MapInv s) (hs : ∀ conn ∈ s.conns, P (s.ctx conn))
    {acts : List Action} (ha : ∀ pre a post, acts = pre ++ a :: post → Allows Q (s.run pre) a) :
    ∀ conn ∈ (s.run acts).conns, P ((s.run acts).ctx conn) := by
  have hrun := Chain.run_between
    (I := fun t => MapInv t ∧ ∀ conn ∈ t.conns, P (t.ctx conn)) s acts
    (fun pre a post heq ⟨hm, ht⟩ => ⟨hm.act a, hP.act hm (ha pre a post heq) ht⟩) ⟨hm, hs⟩
  exact hrun.2

theorem reachable (hP : Resting P fun _ _ => True) (h : Reachable s) :
    ∀ conn ∈ s.conns, P (s.ctx conn) := by
  obtain ⟨k, acts, -, rfl⟩ := h
  exact hP.run (.boot k) (fun conn hmem => by cases hmem) fun _ _ _ _ _ _ _ _ _ _ _ => trivial

end Resting

/-- What every step keeps, holds between events. -/
theorem Stable.resting {P : Ctx → Prop} (hP : Stable P) (Q : Ctx → Events → Prop) :
    Resting P Q where
  new := hP.new
  event := fun _ ev hc hf _ h => hP.serveEvent hc hf h ev
  globals := hP.globals

/-! ### The globals -/

/-- An invariant of the globals, whatever the map, that every step of a connection with the
invariant `P` keeps. -/
structure Shared (P : Ctx → Prop) (I : Globals → Prop) : Prop where
  step : ∀ c c', c.freed = false → P c → I c.toGlobals → Step c c' → I c'.toGlobals
  close : ∀ c, c.freed = false → P c → I c.toGlobals → I (closeAndCleanup c).toGlobals
  map : ∀ (g : Globals) d f, I g → I { g with fdToClient := d, fault := f }

namespace Shared

variable {P : Ctx → Prop} {I : Globals → Prop} {s : Server}

theorem steps (hI : Shared P I) (hP : Kept P) {c c' : Ctx} (h : Steps c c') (hc : P c)
    (hg : I c.toGlobals) : I c'.toGlobals := by
  have hboth := Chain.invariant (P := fun x : Ctx => P x ∧ I x.toGlobals)
    (fun x y ⟨hx, hxy⟩ ⟨hp, hi⟩ => ⟨hP.step x y hx hp hxy, hI.step x y hx hp hi hxy⟩) h ⟨hc, hg⟩
  exact hboth.2

theorem act (hI : Shared P I) (hP : Kept P) (hm : MapInv s)
    (hs : ∀ conn ∈ s.conns, P (s.ctx conn)) (hg : I s.toGlobals) (a : Action) :
    I (s.act a).toGlobals := by
  have ht := Server.act_turn hm a
  generalize s.act a = s' at ht
  cases ht with
  | idle => exact hg
  | accept => exact hI.map s.toGlobals _ _ hg
  | handle hget hi hlive hsteps => exact hI.steps hP hsteps (hs _ (List.mem_of_getElem? hi)) hg
  | error hev hget hi hlive => exact hI.close _ hlive (hs _ (List.mem_of_getElem? hi)) hg
  | noMemory => exact hI.map s.toGlobals _ _ hg
  | useAfterFree hev hget hi hlive hsteps =>
    exact hI.map _ _ _ (hI.steps hP hsteps (hs _ (List.mem_of_getElem? hi)) hg)

/-- **An invariant of the globals holds in every state that the server reaches.** -/
theorem reachable (hI : Shared P I) (hP : Stable P)
    (h0 : ∀ k : Disk, k.Fresh → I (Server.boot k).toGlobals) (h : Reachable s) :
    I s.toGlobals := by
  obtain ⟨k, acts, hk, rfl⟩ := h
  have hrun := Chain.run_invariant
    (I := fun t => MapInv t ∧ (∀ conn ∈ t.conns, P (t.ctx conn)) ∧ I t.toGlobals)
    (fun t a ⟨hm, ht, hg⟩ => ⟨hm.act a, hP.turn (Server.act_turn hm a) ht,
      hI.act hP.toKept hm ht hg a⟩)
    (Server.boot k) acts ⟨.boot k, fun conn hmem => (by cases hmem), h0 k hk⟩
  exact hrun.2.2

end Shared

end FileServer
