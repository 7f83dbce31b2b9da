/-
  What one action and what a run can do to the server.

  `Server.act_turn` says once what an action does: nothing, accept a connection, or
  a chain of steps of one live connection.  Everything that holds of all reachable
  states goes through it: the connection map (`MapInv`), the progress of each
  connection (`Server.run_progress`), and the invariants of single connections
  (`Stable`), which need a proof for one step only.
-/
import FileServer.Server
import FileServer.Equiv.Frame
import FileServer.Lib.Chain

namespace FileServer

open Relation

/-! ### Progress of one connection -/

namespace Conn

/-- How a connection can change: its descriptor stays, its log grows, its request stays once it is
parsed, and nothing changes once it is destroyed. -/
structure Progress (a b : Conn) : Prop where
  fd : b.client.fd = a.client.fd
  log : a.log <+: b.log
  freed : a.freed = true → b = a
  settled : a.Settled → b.Settled ∧ SameHeader a.client b.client

namespace Progress

theorem refl (a : Conn) : a.Progress a :=
  ⟨rfl, List.prefix_rfl, fun _ => rfl, fun h => ⟨h, .refl _⟩⟩

theorem trans {a b c : Conn} (h : a.Progress b) (h' : b.Progress c) : a.Progress c where
  fd := h'.fd.trans h.fd
  log := h.log.trans h'.log
  freed := fun hf => by
    obtain rfl := h.freed hf
    exact h'.freed hf
  settled := fun hs => by
    obtain ⟨hb, hab⟩ := h.settled hs
    obtain ⟨hc, hbc⟩ := h'.settled hb
    exact ⟨hc, hab.trans hbc⟩

/-- A destroyed connection stays destroyed. -/
theorem freed_true {a b : Conn} (h : a.Progress b) (ha : a.freed = true) : b.freed = true := by
  rw [h.freed ha, ha]

end Progress

end Conn

theorem Step.progress {c c' : Ctx} (hc : c.freed = false) (h : Step c c') :
    c.toConn.Progress c'.toConn where
  fd := h.fd
  log := h.log
  freed := fun hf => absurd (hc.symm.trans hf) (by simp)
  settled := fun hs => by
    have hs : c.client.state ≠ .recvHeader := hs.resolve_left (by simp [hc])
    obtain ⟨hs', hsame⟩ := h.sameHeader hs
    exact ⟨.inr hs', hsame⟩

theorem closeAndCleanup_progress {c : Ctx} (hc : c.freed = false) :
    c.toConn.Progress (closeAndCleanup c).toConn where
  fd := by rw [closeAndCleanup_client]
  log := by rw [closeAndCleanup_log]; exact List.prefix_append ..
  freed := fun hf => absurd (hc.symm.trans hf) (by simp)
  settled := fun _ => by rw [closeAndCleanup_client]; exact ⟨.inl rfl, rfl, rfl, rfl, rfl⟩

theorem Steps.progress {c c' : Ctx} (h : Steps c c') : c.toConn.Progress c'.toConn :=
  Chain.map_le (f := Ctx.toConn) Conn.Progress.refl (fun _ _ _ => Conn.Progress.trans)
    (fun _ _ hxy => hxy.2.progress hxy.1) h

theorem Steps.grows {c c' : Ctx} (h : Steps c c') : c.disk.Grows c'.disk :=
  Chain.map_le (f := fun c : Ctx => c.disk) Disk.Grows.refl (fun _ _ _ => Disk.Grows.trans)
    (fun _ _ hxy => hxy.2.grows) h

theorem Steps.fault_mono {c c' : Ctx} (h : Steps c c') (hf : c.fault = true) : c'.fault = true :=
  Chain.invariant (P := fun c : Ctx => c.fault = true) (fun _ _ hxy hx => hxy.2.fault_mono hx) h hf

/-! ### The server with one connection replaced -/

namespace Server

section Put

variable {s : Server} {i : ConnId} {conn : Conn} (c : Ctx)

@[simp] theorem put_toGlobals : (s.put i c).toGlobals = c.toGlobals := rfl

@[simp] theorem length_put_conns : (s.put i c).conns.length = s.conns.length :=
  List.length_set ..

theorem put_conns_self (hi : s.conns[i]? = some conn) :
    (s.put i c).conns[i]? = some c.toConn := by
  obtain ⟨hlt, -⟩ := List.getElem?_eq_some_iff.mp hi
  exact List.getElem?_set_self hlt

theorem put_conns_of_ne {j : ConnId} (h : j ≠ i) : (s.put i c).conns[j]? = s.conns[j]? :=
  List.getElem?_set_ne (Ne.symm h)

@[simp] theorem put_put (c' : Ctx) : (s.put i c).put i c' = s.put i c' := by
  simp only [put, List.set_set]

@[simp] theorem ctx_put : (s.put i c).ctx c.toConn = c := rfl

theorem put_ctx (hi : s.conns[i]? = some conn) : s.put i (s.ctx conn) = s := by
  obtain ⟨hlt, rfl⟩ := List.getElem?_eq_some_iff.mp hi
  simp only [put, ctx, List.set_getElem_self]

theorem call_eq (hi : s.conns[i]? = some conn) (f : Ctx → Ctx) :
    s.call i f = s.put i (f (s.ctx conn)) := by rw [call, hi]

end Put

end Server

/-! ### One action -/

/-- A connection as `accept_connections` creates it. -/
def newConn (fd : Int) (script : Script) : Conn where
  client := clientCreate fd
  script := script
  interest := some .read
  freed := false
  log := []

/-- What one action does. -/
inductive Turn (s : Server) : Action → Server → Prop
  | idle {a : Action} : Turn s a s
  | accept {fd : Int} {script rest : Script} {grow : Bool} (hfd : ¬ s.fdOpen fd)
      (hrx : rest.rx = script.rx) (htx : rest.tx = script.tx) (hfx : rest.fx = script.fx)
      (hmem : script.mem = [] → grow = true ∧ rest = script) :
      Turn s (.accept fd script) { s with
        fdToClient := dictionarySet s.fdToClient fd (some s.conns.length) grow
        conns := s.conns ++ [newConn fd rest] }
  | handle {fd : Int} {ev : Events} {i : ConnId} {conn : Conn} {c : Ctx}
      (hget : dictionaryGet s.fdToClient fd = some i) (hi : s.conns[i]? = some conn)
      (hlive : conn.freed = false) (h : Steps (s.ctx conn) c) :
      Turn s (.event fd ev) (s.put i c)
  | error {fd : Int} {ev : Events} {i : ConnId} {conn : Conn} (hev : ev.error = true)
      (hget : dictionaryGet s.fdToClient fd = some i) (hi : s.conns[i]? = some conn)
      (hlive : conn.freed = false) :
      Turn s (.event fd ev) (s.put i (closeAndCleanup (s.ctx conn)))
  | noMemory {fd : Int} {script : Script} (hmem : script.mem ≠ []) :
      Turn s (.accept fd script) { s with fault := true }
  /-- `main` reads `client->state` of a client that the read event destroyed. -/
  | useAfterFree {fd : Int} {ev : Events} {i : ConnId} {conn : Conn} {c : Ctx}
      (hev : ev.read = true ∧ ev.write = true) (hget : dictionaryGet s.fdToClient fd = some i)
      (hi : s.conns[i]? = some conn) (hlive : conn.freed = false) (h : Steps (s.ctx conn) c) :
      Turn s (.event fd ev) { s.put i c with fault := true }

/-- The connection map registers live connections only, each once and under its own
descriptor. -/
structure MapInv (s : Server) : Prop where
  nodup : s.fdToClient.keys.Nodup
  live : ∀ e ∈ s.fdToClient.contents, ∃ i conn, e.value = some i ∧ s.conns[i]? = some conn ∧
    conn.freed = false ∧ conn.client.fd = e.key

namespace MapInv

variable {s : Server}

/-- What the map finds for a descriptor. -/
theorem get (h : MapInv s) {fd : Int} {i : ConnId} (hg : dictionaryGet s.fdToClient fd = some i) :
    ∃ conn, s.conns[i]? = some conn ∧ conn.freed = false ∧ conn.client.fd = fd := by
  obtain ⟨j, conn, hj, hconn, hlive, hfd⟩ := h.live _ (mem_of_dictionaryGet hg)
  obtain rfl := Option.some.inj hj
  exact ⟨conn, hconn, hlive, hfd⟩

theorem not_mem_keys (h : MapInv s) {fd : Int} (hfd : ¬ s.fdOpen fd) : fd ∉ s.fdToClient.keys := by
  intro hk
  obtain ⟨e, he, rfl⟩ := List.mem_map.mp hk
  obtain ⟨i, conn, -, hconn, hlive, hfd'⟩ := h.live e he
  exact hfd ⟨conn, List.mem_of_getElem? hconn, hlive, hfd'⟩

/-- Replacing a live connection by one with the same descriptor, and not destroying it, keeps the
map in order. -/
theorem put_live (h : MapInv s) {i : ConnId} {conn : Conn} {c : Ctx}
    (hi : s.conns[i]? = some conn) (hmap : c.fdToClient = s.fdToClient) (hc : c.freed = false)
    (hfd : c.client.fd = conn.client.fd) : MapInv (s.put i c) := by
  constructor
  · rw [Server.put_toGlobals, hmap]
    exact h.nodup
  · intro e he
    rw [Server.put_toGlobals, hmap] at he
    obtain ⟨j, conn', hj, hconn', hlive', hfd'⟩ := h.live e he
    by_cases hji : j = i
    · subst hji
      obtain rfl := Option.some.inj (hi.symm.trans hconn')
      exact ⟨j, c.toConn, hj, Server.put_conns_self c hi, hc, hfd.trans hfd'⟩
    · exact ⟨j, conn', hj, by rw [Server.put_conns_of_ne c hji, hconn'], hlive', hfd'⟩

/-- Destroying a connection and taking its descriptor out keeps the map in order. -/
theorem put_freed (h : MapInv s) {i : ConnId} {conn : Conn} {c : Ctx}
    (hi : s.conns[i]? = some conn)
    (hmap : c.fdToClient = dictionaryRemove s.fdToClient conn.client.fd) :
    MapInv (s.put i c) := by
  constructor
  · rw [Server.put_toGlobals, hmap]
    exact keys_dictionaryRemove_nodup h.nodup _
  · intro e he
    rw [Server.put_toGlobals, hmap] at he
    obtain ⟨he, hkey⟩ := (mem_contents_dictionaryRemove h.nodup).mp he
    obtain ⟨j, conn', hj, hconn', hlive', hfd'⟩ := h.live e he
    -- the entry of connection `i` was under its descriptor, which is removed
    have hji : j ≠ i := by
      rintro rfl
      obtain rfl := Option.some.inj (hi.symm.trans hconn')
      exact hkey hfd'.symm
    exact ⟨j, conn', hj, by rw [Server.put_conns_of_ne c hji, hconn'], hlive', hfd'⟩

theorem step (h : MapInv s) {i : ConnId} {c c' : Ctx} (hi : s.conns[i]? = some c.toConn)
    (hg : s.fdToClient = c.fdToClient) (hstep : Step c c') : MapInv (s.put i c') := by
  rcases hstep.map with ⟨hf, hm⟩ | ⟨hf, hm⟩
  · by_cases hc : c.freed = false
    · exact h.put_live hi (hm.trans hg.symm) (hf.trans hc) hstep.fd
    · -- a step of a destroyed connection that leaves the map alone
      constructor
      · rw [Server.put_toGlobals, hm, ← hg]
        exact h.nodup
      · intro e he
        rw [Server.put_toGlobals, hm, ← hg] at he
        obtain ⟨j, conn', hj, hconn', hlive', hfd'⟩ := h.live e he
        have hji : j ≠ i := by
          rintro rfl
          obtain rfl := Option.some.inj (hi.symm.trans hconn')
          exact hc hlive'
        exact ⟨j, conn', hj, by rw [Server.put_conns_of_ne c' hji, hconn'], hlive', hfd'⟩
  · exact h.put_freed hi (by rw [hm, hg])

theorem steps (h : MapInv s) {i : ConnId} {conn : Conn} {c : Ctx} (hi : s.conns[i]? = some conn)
    (hsteps : Steps (s.ctx conn) c) : MapInv (s.put i c) := by
  refine Chain.invariant (P := fun c => MapInv (s.put i c)) (fun x y hxy hx => ?_) hsteps ?_
  · rw [← Server.put_put x y]
    exact hx.step (Server.put_conns_self x hi) rfl hxy.2
  · rw [Server.put_ctx hi]
    exact h

theorem turn {s' : Server} {a : Action} (h : MapInv s) (ht : Turn s a s') : MapInv s' := by
  cases ht with
  | idle => exact h
  | @accept fd script rest grow hfd =>
    have hkey := h.not_mem_keys hfd
    have hcont := contents_dictionarySet_new hkey (some s.conns.length) grow
    have hlive : ∀ e ∈ s.fdToClient.contents, ∃ i conn, e.value = some i ∧
        (s.conns ++ [newConn fd rest])[i]? = some conn ∧ conn.freed = false ∧
        conn.client.fd = e.key := by
      intro e he
      obtain ⟨j, conn, hj, hconn, hlive, hfd'⟩ := h.live e he
      obtain ⟨hlt, -⟩ := List.getElem?_eq_some_iff.mp hconn
      exact ⟨j, conn, hj, by rw [List.getElem?_append_left hlt, hconn], hlive, hfd'⟩
    constructor
    · simp only [FssDictionary.keys, hcont]
      split_ifs
      · exact h.nodup
      · rw [List.map_append, List.map_singleton]
        exact List.nodup_append.mpr ⟨h.nodup, List.nodup_singleton _, fun a ha b hb hab => by
          obtain rfl := List.mem_singleton.mp hb
          exact hkey (hab ▸ ha)⟩
    · intro e he
      simp only [hcont] at he
      split_ifs at he
      · exact hlive e he
      · rcases List.mem_append.mp he with he | he
        · exact hlive e he
        · obtain rfl := List.mem_singleton.mp he
          exact ⟨s.conns.length, newConn fd rest, rfl, by simp, rfl, rfl⟩
  | handle hget hi hlive hsteps => exact h.steps hi hsteps
  | error hev hget hi hlive =>
    exact h.put_freed hi (closeAndCleanup_fdToClient _)
  | noMemory => exact ⟨h.nodup, h.live⟩
  | useAfterFree hev hget hi hlive hsteps =>
    have := h.steps hi hsteps
    exact ⟨this.nodup, this.live⟩

end MapInv

namespace Server

variable {s : Server}

theorem acceptConnection_turn (fd : Int) (script : Script) :
    Turn s (.accept fd script) (acceptConnection s fd script) := by
  unfold acceptConnection
  by_cases hfd : s.fdOpen fd
  · rw [if_pos hfd]
    exact .idle
  · rw [if_neg hfd]
    dsimp only
    by_cases hrec : script.alloc.1 = false
    · rw [if_pos hrec]
      refine .noMemory fun hmem => ?_
      rw [Script.alloc, hmem] at hrec
      cases hrec
    · rw [if_neg hrec]
      -- the allocations of the record and of the map entry leave the other results alone
      refine .accept hfd ?_ ?_ ?_ fun hmem => ?_
      · split_ifs <;> simp
      · split_ifs <;> simp
      · split_ifs <;> simp
      · have halloc : script.alloc = (true, script) := by rw [Script.alloc, hmem]
        rw [halloc]
        dsimp only
        rw [halloc]
        split_ifs <;> exact ⟨rfl, rfl⟩

/-- A write event on a connection that the read event before it, if any, left in `c`. -/
theorem writeEvent_turn {fd : Int} {e : Events} {i : ConnId} {conn : Conn} {c : Ctx}
    (hget : dictionaryGet s.fdToClient fd = some i) (hi : s.conns[i]? = some conn)
    (hlive : conn.freed = false) (hsteps : Steps (s.ctx conn) c)
    (hev : c.freed = true → e.read = true ∧ e.write = true) :
    Turn s (.event fd e) (if c.freed then { s.put i c with fault := true }
      else if c.client.state ≠ .recvHeader then (s.put i c).call i handleWriteEvent
      else s.put i c) := by
  by_cases hf : c.freed = true
  · rw [if_pos hf]
    exact .useAfterFree (hev hf) hget hi hlive hsteps
  · rw [if_neg hf]
    by_cases hst : c.client.state ≠ .recvHeader
    · rw [if_pos hst, call_eq (put_conns_self _ hi), put_put, ctx_put]
      exact .handle hget hi hlive (hsteps.trans (handleWriteEvent_steps (by simpa using hf)))
    · rw [if_neg hst]
      exact .handle hget hi hlive hsteps

/-- An event is a chain of steps of the connection that the map finds for its descriptor. -/
theorem handleEvent_turn (h : MapInv s) (hfault : s.fault = false) (fd : Int) (ev : Events) :
    Turn s (.event fd ev) (handleEvent s fd ev) := by
  unfold handleEvent
  cases hg : dictionaryGet s.fdToClient fd with
  | none => exact .idle
  | some i =>
    obtain ⟨conn, hi, hlive, -⟩ := h.get hg
    have hread : Steps (s.ctx conn) (handleReadEvent (s.ctx conn)) :=
      handleReadEvent_steps hlive hfault
    dsimp only
    by_cases he : ev.error = true
    · rw [if_pos he, call_eq hi]
      exact .error he hg hi hlive
    rw [if_neg he]
    by_cases hr : ev.read = true <;> by_cases hw : ev.write = true
    · rw [if_pos hr, if_pos hw, call_eq hi, put_conns_self _ hi]
      exact writeEvent_turn hg hi hlive hread fun _ => ⟨hr, hw⟩
    · rw [if_pos hr, if_neg hw, call_eq hi]
      exact .handle hg hi hlive hread
    · rw [if_neg hr, if_pos hw, hi]
      have := writeEvent_turn (e := ev) hg hi hlive (.refl : Steps (s.ctx conn) (s.ctx conn))
        fun hf => by cases hlive.symm.trans hf
      rw [put_ctx hi] at this
      exact this
    · rw [if_neg hr, if_neg hw]
      exact .idle

/-- **What an action does.** -/
theorem act_turn (h : MapInv s) (a : Action) : Turn s a (s.act a) := by
  unfold act
  split_ifs with hf
  · exact .idle
  · cases a with
    | accept fd script => exact acceptConnection_turn fd script
    | event fd ev => exact handleEvent_turn h (by simpa using hf) fd ev

end Server

namespace MapInv

variable {s : Server}

theorem act (h : MapInv s) (a : Action) : MapInv (s.act a) := h.turn (Server.act_turn h a)

theorem run (h : MapInv s) (acts : List Action) : MapInv (s.run acts) :=
  Chain.run_invariant (I := MapInv) (fun _ a hs => hs.act a) s acts h

theorem boot (k : Disk) : MapInv (Server.boot k) := ⟨List.nodup_nil, fun e he => by cases he⟩

end MapInv

/-! ### The events of one connection -/

/-- What an event does to the connection it is for. -/
def serveEvent (c : Ctx) (ev : Events) : Ctx :=
  if ev.error then closeAndCleanup c
  else
    let c := if ev.read then handleReadEvent c else c
    if ev.write then
      if c.freed then { c with fault := true }
      else if c.client.state ≠ .recvHeader then handleWriteEvent c
      else c
    else c

/-- An event of a descriptor is served by the connection that the map has for it. -/
theorem handleEvent_eq {s : Server} {fd : Int} {i : ConnId} {conn : Conn} (ev : Events)
    (hget : dictionaryGet s.fdToClient fd = some i) (hi : s.conns[i]? = some conn) :
    handleEvent s fd ev = s.put i (serveEvent (s.ctx conn) ev) := by
  have hwrite : ∀ c : Ctx, (if c.freed then { s.put i c with fault := true }
      else if c.client.state ≠ .recvHeader then (s.put i c).call i handleWriteEvent
      else s.put i c) = s.put i (if c.freed then { c with fault := true }
        else if c.client.state ≠ .recvHeader then handleWriteEvent c else c) := fun c => by
    split_ifs
    · rfl
    · rw [Server.call_eq (Server.put_conns_self _ hi), Server.put_put, Server.ctx_put]
    · rfl
  unfold handleEvent serveEvent
  rw [hget]
  dsimp only
  by_cases he : ev.error = true
  · rw [if_pos he, if_pos he, Server.call_eq hi]
  rw [if_neg he, if_neg he]
  by_cases hr : ev.read = true
  · rw [if_pos hr, if_pos hr, Server.call_eq hi]
    by_cases hw : ev.write = true
    · rw [if_pos hw, if_pos hw, Server.put_conns_self _ hi]
      exact hwrite _
    · rw [if_neg hw, if_neg hw]
  · rw [if_neg hr, if_neg hr]
    by_cases hw : ev.write = true
    · have hself := hwrite (s.ctx conn)
      rw [Server.put_ctx hi] at hself
      rw [if_pos hw, if_pos hw, hi]
      exact hself
    · rw [if_neg hw, if_neg hw, Server.put_ctx hi]

/-- The map loses the descriptor of a connection when it is destroyed. -/
theorem Steps.map {c c' : Ctx} (h : Steps c c') :
    c'.freed = c.freed ∧ c'.fdToClient = c.fdToClient ∨
      c'.freed = true ∧ c'.fdToClient = dictionaryRemove c.fdToClient c.client.fd := by
  induction h with
  | refl => exact .inl ⟨rfl, rfl⟩
  | @tail x y hsteps hstep ih =>
    obtain ⟨hlive, hstep⟩ := hstep
    have hfd : x.client.fd = c.client.fd := (Steps.progress hsteps).fd
    rcases ih with ⟨hf, hm⟩ | ⟨hf, -⟩
    · rcases hstep.map with ⟨hf', hm'⟩ | ⟨hf', hm'⟩
      · exact .inl ⟨hf'.trans hf, hm'.trans hm⟩
      · exact .inr ⟨hf', by rw [hm', hm, hfd]⟩
    · cases hlive.symm.trans hf

/-- The map keeps the entry of a connection that is not destroyed. -/
theorem MapInv.get_turn {s s' : Server} {a : Action} (h : MapInv s) (ht : Turn s a s') {fd : Int}
    {i : ConnId} {conn' : Conn} (hget : dictionaryGet s.fdToClient fd = some i)
    (hi' : s'.conns[i]? = some conn') (hlive' : conn'.freed = false) :
    dictionaryGet s'.fdToClient fd = some i := by
  have hput : ∀ {fd' : Int} {j : ConnId} {conn : Conn} {c : Ctx} {s' : Server},
      dictionaryGet s.fdToClient fd' = some j → s.conns[j]? = some conn →
      s'.conns = (s.put j c).conns → s'.fdToClient = c.fdToClient → s'.conns[i]? = some conn' →
      (c.freed = false ∧ c.fdToClient = s.fdToClient ∨
        c.freed = true ∧ c.fdToClient = dictionaryRemove s.fdToClient conn.client.fd) →
      dictionaryGet s'.fdToClient fd = some i := by
    intro fd' j conn c s' hget' hj hconns hmap hi' hc
    rcases hc with ⟨-, hc⟩ | ⟨hf, hc⟩
    · rw [hmap, hc, hget]
    · obtain ⟨conn₂, hj₂, -, hfd⟩ := h.get hget'
      obtain rfl := Option.some.inj (hj.symm.trans hj₂)
      have hne : fd ≠ conn.client.fd := by
        rintro rfl
        rw [hfd, hget'] at hget
        obtain rfl := Option.some.inj hget
        rw [hconns, Server.put_conns_self _ hj] at hi'
        obtain rfl := Option.some.inj hi'
        cases hf.symm.trans hlive'
      rw [hmap, hc, dictionaryGet_dictionaryRemove h.nodup, if_neg hne, hget]
  have hsteps : ∀ {conn : Conn} {c : Ctx}, conn.freed = false → Steps (s.ctx conn) c →
      c.freed = false ∧ c.fdToClient = s.fdToClient ∨
        c.freed = true ∧ c.fdToClient = dictionaryRemove s.fdToClient conn.client.fd :=
    fun hlive hsteps => hsteps.map.imp_left fun ⟨hf, hm⟩ => ⟨hf.trans hlive, hm⟩
  cases ht with
  | idle => exact hget
  | @accept fd' script rest grow hfd =>
    have hkey := h.not_mem_keys hfd
    have hcont := contents_dictionarySet_new hkey (some s.conns.length) grow
    have hturn := Turn.accept (s := s) hfd ‹rest.rx = script.rx› ‹_› ‹_› ‹_›
    refine dictionaryGet_eq_of_mem (h.turn hturn).nodup ?_
    rw [hcont]
    split_ifs
    · exact mem_of_dictionaryGet hget
    · exact List.mem_append_left _ (mem_of_dictionaryGet hget)
  | handle hget' hj hlive hst => exact hput hget' hj rfl rfl hi' (hsteps hlive hst)
  | error hev hget' hj hlive =>
    exact hput hget' hj rfl rfl hi' (.inr ⟨rfl, closeAndCleanup_fdToClient _⟩)
  | noMemory => exact hget
  | useAfterFree hev hget' hj hlive hst => exact hput hget' hj rfl rfl hi' (hsteps hlive hst)

/-! ### Runs -/

namespace Server

variable {s s' : Server}

theorem run_cons (s : Server) (a : Action) (acts : List Action) :
    s.run (a :: acts) = (s.act a).run acts := rfl

theorem run_append (s : Server) (acts acts' : List Action) :
    s.run (acts ++ acts') = (s.run acts).run acts' := List.foldl_append ..

theorem run_concat (s : Server) (acts : List Action) (a : Action) :
    s.run (acts ++ [a]) = (s.run acts).act a := run_append s acts [a]

/-- Undefined behaviour ends every run. -/
theorem run_of_fault (h : s.fault = true) (acts : List Action) : s.run acts = s := by
  induction acts with
  | nil => rfl
  | cons a acts ih =>
    have ha : s.act a = s := if_pos h
    rw [run_cons, ha, ih]

theorem fault_of_run (acts : List Action) (h : (s.run acts).fault = false) : s.fault = false := by
  by_contra hf
  rw [run_of_fault (by simpa using hf)] at h
  exact hf h

/-- An action that is no event of its descriptor leaves a connection alone. -/
theorem conns_act_of_ne (hm : MapInv s) {fd : Int} {i : ConnId}
    (hget : dictionaryGet s.fdToClient fd = some i) {a : Action}
    (ha : ∀ ev, a ≠ .event fd ev) : (s.act a).conns[i]? = s.conns[i]? := by
  have hput : ∀ {fd' : Int} {j : ConnId} {ev : Events} (c : Ctx), a = .event fd' ev →
      dictionaryGet s.fdToClient fd' = some j → (s.put j c).conns[i]? = s.conns[i]? := by
    intro fd' j ev c heq hget'
    refine put_conns_of_ne c ?_
    rintro rfl
    obtain ⟨conn, hi, -, hfd⟩ := hm.get hget
    obtain ⟨conn', hi', -, hfd'⟩ := hm.get hget'
    obtain rfl := Option.some.inj (hi.symm.trans hi')
    rw [← hfd', hfd] at heq
    exact ha ev heq
  have ht := act_turn hm a
  generalize s.act a = s' at ht
  cases ht with
  | idle => rfl
  | accept =>
    obtain ⟨conn, hi, -, -⟩ := hm.get hget
    exact List.getElem?_append_left (List.getElem?_eq_some_iff.mp hi).1
  | handle hget' => exact hput _ rfl hget'
  | error hev hget' => exact hput _ rfl hget'
  | noMemory => rfl
  | useAfterFree hev hget' => exact hput _ rfl hget'

/-- A connection that is accepted and entered in the map. -/
theorem act_accept (hm : MapInv s) {fd : Int} {script : Script}
    (hacc : dictionaryGet (s.act (.accept fd script)).fdToClient fd = some s.conns.length) :
    ∃ rest : Script, rest.rx = script.rx ∧ rest.tx = script.tx ∧ rest.fx = script.fx ∧
      (s.act (.accept fd script)).conns[s.conns.length]? = some (newConn fd rest) ∧
      (s.act (.accept fd script)).disk = s.disk ∧
      (s.act (.accept fd script)).fault = false := by
  obtain ⟨conn, hi, -, -⟩ := (hm.act (.accept fd script)).get hacc
  have hlt := (List.getElem?_eq_some_iff.mp hi).1
  by_cases hf : s.fault = true
  · have hact : s.act (.accept fd script) = s := if_pos hf
    rw [hact] at hlt
    exact absurd hlt (Nat.lt_irrefl _)
  have ht := act_turn hm (.accept fd script)
  generalize s.act (.accept fd script) = s' at ht hacc hi hlt
  cases ht with
  | idle => exact absurd hlt (Nat.lt_irrefl _)
  | @accept _ _ rest grow hfd hrx htx hfx hmem =>
    exact ⟨rest, hrx, htx, hfx, by simp, rfl, by simpa using hf⟩
  | noMemory => exact absurd hlt (Nat.lt_irrefl _)

/-- One action: connections stay in place and make progress, and the disk grows. -/
structure Le (s s' : Server) : Prop where
  conns : ∀ (i : ConnId) (conn : Conn), s.conns[i]? = some conn →
    ∃ conn', s'.conns[i]? = some conn' ∧ conn.Progress conn'
  disk : s.disk.Grows s'.disk

namespace Le

theorem refl (s : Server) : Le s s := ⟨fun _ conn h => ⟨conn, h, .refl _⟩, .refl _⟩

theorem trans {s s' s'' : Server} (h : Le s s') (h' : Le s' s'') : Le s s'' where
  conns := fun i conn hi => by
    obtain ⟨conn', hi', hp⟩ := h.conns i conn hi
    obtain ⟨conn'', hi'', hp'⟩ := h'.conns i conn' hi'
    exact ⟨conn'', hi'', hp.trans hp'⟩
  disk := h.disk.trans h'.disk

theorem length (h : Le s s') : s.conns.length ≤ s'.conns.length := by
  by_contra hlt
  have hlt : s'.conns.length < s.conns.length := by omega
  obtain ⟨conn', hi, -⟩ := h.conns _ _ (List.getElem?_eq_getElem hlt)
  rw [List.getElem?_eq_none (Nat.le_refl _)] at hi
  cases hi

theorem put {i : ConnId} {conn : Conn} {c : Ctx} (hi : s.conns[i]? = some conn)
    (hp : conn.Progress c.toConn) (hd : s.disk.Grows c.disk) : Le s (s.put i c) where
  conns := fun j conn' hj => by
    by_cases hji : j = i
    · subst hji
      obtain rfl := Option.some.inj (hi.symm.trans hj)
      exact ⟨c.toConn, put_conns_self c hi, hp⟩
    · exact ⟨conn', by rw [put_conns_of_ne c hji, hj], .refl _⟩
  disk := hd

end Le

theorem turn_le {a : Action} (h : Turn s a s') : Le s s' := by
  cases h with
  | idle => exact .refl s
  | accept =>
    refine ⟨fun i conn hi => ⟨conn, ?_, .refl _⟩, .refl _⟩
    obtain ⟨hlt, -⟩ := List.getElem?_eq_some_iff.mp hi
    exact (List.getElem?_append_left hlt).trans hi
  | handle hget hi hlive h => exact .put hi h.progress h.grows
  | error hev hget hi hlive =>
    exact .put hi (closeAndCleanup_progress (c := s.ctx _) hlive) (closeAndCleanup_grows (s.ctx _))
  | noMemory => exact ⟨fun _ conn h => ⟨conn, h, .refl _⟩, .refl _⟩
  | useAfterFree hev hget hi hlive h =>
    have := Le.put hi h.progress h.grows
    exact ⟨this.conns, this.disk⟩

/-- **Progress.** A run keeps every connection in its place, moves it on, and forgets no file. -/
theorem run_le (h : MapInv s) (acts : List Action) : Le s (s.run acts) := by
  have hrun := Chain.run_invariant (I := fun t => MapInv t ∧ Le s t)
    (fun t a ⟨hm, hle⟩ => ⟨hm.act a, hle.trans (turn_le (act_turn hm a))⟩) s acts ⟨h, .refl s⟩
  exact hrun.2

end Server

/-! ### One connection in a run -/

/-- What an event does to its connection: a handler goes in steps, or the connection is closed at
once. -/
inductive Handled (c : Ctx) : Ctx → Prop
  | steps {c' : Ctx} (h : Steps c c') : Handled c c'
  | closed : Handled c (closeAndCleanup c)

theorem Handled.progress {c c' : Ctx} (hc : c.freed = false) (h : Handled c c') :
    c.toConn.Progress c'.toConn := by
  cases h with
  | steps h => exact h.progress
  | closed => exact closeAndCleanup_progress hc

/-- What steps and closing keep, an event keeps. -/
theorem Handled.invariant {P : Ctx → Prop} {c c' : Ctx} (hc : c.freed = false) (h : Handled c c')
    (hP : P c) (hstep : ∀ x y, x.freed = false → P x → Step x y → P y)
    (hclose : ∀ x, x.freed = false → P x → P (closeAndCleanup x)) : P c' := by
  cases h with
  | steps h => exact Chain.invariant (fun x y hxy hx => hstep x y hxy.1 hx hxy.2) h hP
  | closed => exact hclose c hc hP

/-- Where the connection at index `i` comes from, after one action. -/
inductive Moved (s : Server) (i : ConnId) (s' : Server) (conn' : Conn) : Prop
  | same (hi : s.conns[i]? = some conn')
  | new {fd : Int} {script : Script} (hi : i = s.conns.length) (hconn : conn' = newConn fd script)
  | own {conn : Conn} {c : Ctx} (hfault : s.fault = false) (hi : s.conns[i]? = some conn)
      (hlive : conn.freed = false) (h : Handled (s.ctx conn) c) (hconn : conn' = c.toConn)
      (hdisk : s'.disk = c.disk) (hfiles : s'.serverFiles = c.serverFiles)
      (hmono : c.fault = true → s'.fault = true)

namespace Server

variable {s s' : Server}

theorem turn_moved {a : Action} (ht : Turn s a s') (hf : s.fault = false) {i : ConnId} {conn' : Conn}
    (hi : s'.conns[i]? = some conn') : Moved s i s' conn' := by
  have hput : ∀ {j : ConnId} {conn : Conn} {c : Ctx}, s.conns[j]? = some conn →
      conn.freed = false → Handled (s.ctx conn) c → (s.put j c).conns[i]? = some conn' →
      s'.disk = c.disk → s'.serverFiles = c.serverFiles → (c.fault = true → s'.fault = true) →
      Moved s i s' conn' := by
    intro j conn c hj hlive hc hi hd hs hm
    by_cases hij : i = j
    · subst hij
      rw [put_conns_self c hj] at hi
      exact .own hf hj hlive hc (Option.some.inj hi).symm hd hs hm
    · rw [put_conns_of_ne c hij] at hi
      exact .same hi
  cases ht with
  | idle => exact .same hi
  | @accept fd script rest grow hfd =>
    by_cases hlt : i < s.conns.length
    · rw [show (s.conns ++ [newConn fd rest])[i]? = s.conns[i]? from
        List.getElem?_append_left hlt] at hi
      exact .same hi
    · change (s.conns ++ [newConn fd rest])[i]? = some conn' at hi
      have hle : s.conns.length ≤ i := Nat.le_of_not_lt hlt
      rw [List.getElem?_append_right hle] at hi
      obtain ⟨h0, h1⟩ := List.getElem?_eq_some_iff.mp hi
      have hconn : conn' = newConn fd rest := h1.symm.trans (List.getElem_singleton h0)
      exact .new (Nat.le_antisymm (Nat.sub_eq_zero_iff_le.mp (Nat.lt_one_iff.mp h0)) hle) hconn
  | handle hget hj hlive h => exact hput hj hlive (.steps h) hi rfl rfl id
  | error hev hget hj hlive => exact hput hj hlive .closed hi rfl rfl id
  | noMemory => exact .same hi
  | useAfterFree hev hget hj hlive h => exact hput hj hlive (.steps h) hi rfl rfl fun _ => rfl

/-- **One connection under one action.** -/
theorem act_moved (h : MapInv s) {a : Action} {i : ConnId} {conn' : Conn}
    (hi : (s.act a).conns[i]? = some conn') : Moved s i (s.act a) conn' := by
  by_cases hf : s.fault = true
  · unfold act at hi ⊢
    rw [if_pos hf] at hi ⊢
    exact .same hi
  · exact turn_moved (act_turn h a) (by simpa using hf) hi

end Server

/-! ### Invariants of single connections -/

/-- An invariant of one connection: its events keep it, and so does whatever other connections do
to the globals. -/
structure Lasting (P : Ctx → Prop) : Prop where
  handled : ∀ c c', c.freed = false → c.fault = false → P c → Handled c c' → P c'
  globals : ∀ (c : Ctx) g, c.disk.Grows g.disk → (c.fault = true → g.fault = true) → P c →
    P { c with toGlobals := g }

/-- An invariant that every step keeps. -/
structure Kept (P : Ctx → Prop) : Prop where
  step : ∀ c c', c.freed = false → P c → Step c c' → P c'
  close : ∀ c, c.freed = false → P c → P (closeAndCleanup c)
  globals : ∀ (c : Ctx) g, c.disk.Grows g.disk → (c.fault = true → g.fault = true) → P c →
    P { c with toGlobals := g }

/-- An invariant that holds of a new connection too. -/
structure Stable (P : Ctx → Prop) : Prop extends Kept P where
  new : ∀ fd script g, P { newConn fd script with toGlobals := g }

namespace Lasting

variable {P : Ctx → Prop} {s : Server}

/-- One action keeps the invariant of a connection that is there already. -/
theorem act (hP : Lasting P) (hm : MapInv s) (a : Action) {i : ConnId} {conn conn' : Conn}
    (hi : s.conns[i]? = some conn) (hi' : (s.act a).conns[i]? = some conn')
    (hs : P (s.ctx conn)) : P ((s.act a).ctx conn') := by
  have hle := Server.turn_le (Server.act_turn hm a)
  have hfault : s.fault = true → (s.act a).fault = true := fun hf => by
    unfold Server.act
    rw [if_pos hf]
    exact hf
  cases Server.act_moved hm hi' with
  | same hi₀ =>
    obtain rfl := Option.some.inj (hi.symm.trans hi₀)
    exact hP.globals _ _ hle.disk hfault hs
  | new hlen =>
    obtain ⟨hlt, -⟩ := List.getElem?_eq_some_iff.mp hi
    exact absurd hlt (by rw [hlen]; exact Nat.lt_irrefl _)
  | @own _ c hf hi₀ hlive h hconn hdisk hfiles hmono =>
    obtain rfl := Option.some.inj (hi.symm.trans hi₀)
    subst hconn
    exact hP.globals c _ (hdisk ▸ .refl _) hmono (hP.handled _ c hlive hf hs h)

/-- **An invariant of a connection holds of it as long as the server runs.** -/
theorem run (hP : Lasting P) (hm : MapInv s) (acts : List Action) {i : ConnId} {conn conn' : Conn}
    (hi : s.conns[i]? = some conn) (hi' : (s.run acts).conns[i]? = some conn')
    (hs : P (s.ctx conn)) : P ((s.run acts).ctx conn') := by
  induction acts generalizing s conn with
  | nil =>
    obtain rfl := Option.some.inj (hi.symm.trans hi')
    exact hs
  | cons a acts ih =>
    obtain ⟨conn'', hi'', -⟩ := (Server.turn_le (Server.act_turn hm a)).conns i conn hi
    exact ih (hm.act a) hi'' hi' (hP.act hm a hi hi'' hs)

end Lasting

namespace Kept

variable {P : Ctx → Prop}

theorem steps (hP : Kept P) {c c' : Ctx} (h : Steps c c') (hc : P c) : P c' :=
  Chain.invariant (fun x y hxy hx => hP.step x y hxy.1 hx hxy.2) h hc

theorem lasting (hP : Kept P) : Lasting P where
  handled := fun _ _ hlive _ hc h => h.invariant hlive hc hP.step hP.close
  globals := hP.globals

end Kept

namespace Stable

variable {P : Ctx → Prop} {s s' : Server}

theorem turn {a : Action} (hP : Stable P) (ht : Turn s a s') (hs : ∀ conn ∈ s.conns, P (s.ctx conn)) :
    ∀ conn ∈ s'.conns, P (s'.ctx conn) := by
  have hput : ∀ {i : ConnId} {conn : Conn} {c : Ctx}, s.conns[i]? = some conn →
      s.disk.Grows c.disk → (s.fault = true → c.fault = true) → P c →
      ∀ conn' ∈ (s.put i c).conns, P ((s.put i c).ctx conn') := by
    intro i conn c hi hgrows hfault hc conn' hmem
    rcases List.mem_or_eq_of_mem_set hmem with hmem | rfl
    · exact hP.globals (s.ctx conn') c.toGlobals hgrows hfault (hs conn' hmem)
    · exact hc
  cases ht with
  | idle => exact hs
  | accept =>
    intro conn hmem
    rcases List.mem_append.mp hmem with hmem | hmem
    · exact hP.globals (s.ctx conn) _ (.refl _) id (hs conn hmem)
    · obtain rfl := List.mem_singleton.mp hmem
      exact hP.new _ _ _
  | handle hget hi hlive h =>
    exact hput hi h.grows h.fault_mono (hP.toKept.steps h (hs _ (List.mem_of_getElem? hi)))
  | error hev hget hi hlive =>
    exact hput hi (closeAndCleanup_grows (s.ctx _))
      (fun hf => (closeAndCleanup_fault (s.ctx _)).trans hf)
      (hP.close (s.ctx _) hlive (hs _ (List.mem_of_getElem? hi)))
  | noMemory =>
    intro conn hmem
    exact hP.globals (s.ctx conn) _ (.refl _) (fun _ => rfl) (hs conn hmem)
  | useAfterFree hev hget hi hlive h =>
    intro conn hmem
    exact hP.globals ((s.put _ _).ctx conn) _ (.refl _) (fun _ => rfl)
      (hput hi h.grows h.fault_mono (hP.toKept.steps h (hs _ (List.mem_of_getElem? hi))) conn hmem)

/-- **An invariant of one connection holds of every connection, in every state a run
reaches.** -/
theorem run (hP : Stable P) (hm : MapInv s) (hs : ∀ conn ∈ s.conns, P (s.ctx conn))
    (acts : List Action) : ∀ conn ∈ (s.run acts).conns, P ((s.run acts).ctx conn) := by
  have hrun := Chain.run_invariant
    (I := fun t => MapInv t ∧ ∀ conn ∈ t.conns, P (t.ctx conn))
    (fun t a ⟨hm, ht⟩ => ⟨hm.act a, hP.turn (Server.act_turn hm a) ht⟩) s acts ⟨hm, hs⟩
  exact hrun.2

theorem reachable (hP : Stable P) (h : Reachable s) : ∀ conn ∈ s.conns, P (s.ctx conn) := by
  obtain ⟨k, acts, -, rfl⟩ := h
  exact hP.run (.boot k) (fun conn hmem => by cases hmem) acts

end Stable

theorem Reachable.mapInv {s : Server} (h : Reachable s) : MapInv s := by
  obtain ⟨k, acts, -, rfl⟩ := h
  exact (MapInv.boot k).run acts

theorem handleOk_stable : Stable HandleOk where
  new := fun _ _ _ _ h => by cases h
  step := fun _ _ hc hh h => hh.step hc h
  close := fun _ _ _ h => by cases h
  globals := fun c g hg _ hh hc hs => by
    obtain ⟨l, gen, hu⟩ := hh hc hs
    refine ⟨l, gen, hu.fd, ?_, hu.lt.trans_le (hg.files l)⟩
    rw [Ctx.filepath, hg.tree]
    exact hu.target

end FileServer
