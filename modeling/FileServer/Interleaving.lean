/-
  Connections on different names do not interfere.

  Clients that ask for different files are connected, and the events of their
  descriptors come in any order.  Each connection is compared with itself in the run in
  which the other events are left out (`Paired`): an event of its own keeps the two in
  step, because every handler treats contexts that agree on its name alike, and an event
  of another connection leaves its name, its record and its entry in the map alone.  The
  runs follow by induction (`Clients.run`).

  Allocations succeed, and an event is for one handler.
-/
import FileServer.Equiv.Congruence
import FileServer.Lifetime

namespace FileServer

open Ctx

/-! ### What a client asks for -/

section Asking

variable {w : Path} {c c' : Ctx}

/-- A request line that is being received names `w`. -/
def Asking (w : Path) (c : Ctx) : Prop :=
  c.fault = false → c.freed = false → c.client.state = .recvHeader → Asks w c

theorem Asks.congr (h : Asks w c) (hbuf : c'.client.headerBuf = c.client.headerBuf)
    (hrx : c'.script.rx = c.script.rx) : Asks w c' := by
  unfold Asks
  rw [hbuf, hrx]
  exact h

theorem Asks.read (h : Asks w c) {n : Nat} (hr : (c.sysRead n).1.found = []) :
    Asks w (c.sysRead n).2 := by
  have hin := incoming_read c.script n
  rw [show (c.script.read n).1.found = [] from hr, List.nil_append] at hin
  unfold Asks at h ⊢
  rw [hin] at h
  exact h

theorem Asks.storeHeader (h : Asks w c) {b : Byte} {bs : List Byte}
    (hr : (c.sysRead 1).1 = .bytes (b :: bs)) : Asks w (storeHeader c b) := by
  have hin := incoming_read c.script 1
  rw [show (c.script.read 1).1 = .bytes [b] from sysRead_one hr] at hin
  intro q hq
  refine h q ?_
  rw [hin, ← hq]
  change requestOf (c.client.headerBuf ++ ([b] ++ _)) = requestOf (c.client.headerBuf ++ [b] ++ _)
  rw [List.append_assoc]
  rfl

theorem Asking.step (h : Asking w c) (hc : c.freed = false) (hstep : Step c c') :
    Asking w c' := by
  by_cases hs : c.client.state = .recvHeader
  swap
  · exact fun _ _ hs' => absurd hs' (hstep.sameHeader hs).1
  cases hstep with
  | quiet hq =>
    cases hq with
    | @read n hn hr =>
      intro hf _ _
      refine (h hf hc hs).read ?_
      rcases hr with hr | hr <;> rw [hr] <;> rfl
    | write => exact fun hf _ _ => (h hf hc hs).congr rfl (Script.write_rx ..)
    | pread => exact fun hf _ _ => (h hf hc hs).congr rfl (Script.file_rx ..)
  | receive hr =>
    cases hr with
    | header hf _ _ hr => exact fun _ _ _ => (h hf hc hs).storeHeader hr
    | size hs' => cases hs'.symm.trans hs
    | body hs' => cases hs'.symm.trans hs
  | begin hb => cases hb <;> exact fun _ _ hs' => by cases hs'
  | @choose k st msg => exact fun _ _ hs' => absurd hs' (fillResponse_sending k st msg).ne.1
  | send hs' => exact fun _ _ hs'' => absurd hs'' hs'.sending.ne.1
  | close => exact fun _ hlive => by cases hlive
  | fault => exact fun hf => by cases hf

theorem asking_kept (w : Path) : Kept (Asking w) where
  step := fun _ _ hc h hstep => h.step hc hstep
  close := fun _ _ _ _ hlive => by cases hlive
  globals := fun _ _ _ hf h hf' hlive hs =>
    h (by by_contra hc; simp [hf (by simpa using hc)] at hf') hlive hs

end Asking

/-! ### Events one at a time -/

/-- An event for one handler. -/
def Events.One (ev : Events) : Prop := ¬ (ev.read = true ∧ ev.write = true)

instance : DecidablePred Events.One := fun _ => inferInstanceAs (Decidable (¬ _))

namespace Server

variable {s s' : Server} {fd : Int} {ev : Events}

/-- The handler steps of some connections, in the order in which they run. -/
def serveEvents (s : Server) (es : List (Int × Events)) : Server :=
  s.run (es.map fun e => .event e.1 e.2)

theorem serveEvents_concat (s : Server) (es : List (Int × Events)) (e : Int × Events) :
    s.serveEvents (es ++ [e]) = (s.serveEvents es).act (.event e.1 e.2) := by
  simp only [serveEvents, run, List.map_append, List.foldl_append, List.map_cons, List.map_nil,
    List.foldl_cons, List.foldl_nil]

theorem act_event_none (hget : dictionaryGet s.fdToClient fd = none) :
    s.act (.event fd ev) = s := by
  unfold act
  split_ifs
  · rfl
  · dsimp only
    unfold handleEvent
    rw [hget]

theorem act_event (hf : s.fault = false) {i : ConnId} {conn : Conn}
    (hget : dictionaryGet s.fdToClient fd = some i) (hi : s.conns[i]? = some conn) (ev : Events) :
    s.act (.event fd ev) = s.put i (serveEvent (s.ctx conn) ev) := by
  unfold act
  rw [if_neg (by simp [hf])]
  exact handleEvent_eq ev hget hi

theorem length_serveEvents (h : MapInv s) (es : List (Int × Events)) :
    (s.serveEvents es).conns.length = s.conns.length := by
  induction es generalizing s with
  | nil => rfl
  | cons e es ih =>
    refine (ih (h.act (.event e.1 e.2))).trans ?_
    have ht := act_turn h (.event e.1 e.2)
    generalize s.act (.event e.1 e.2) = s' at ht
    cases ht with
    | idle => rfl
    | handle => exact length_put_conns _
    | error => exact length_put_conns _
    | useAfterFree => exact length_put_conns _

/-- **Frame.** An event of another descriptor changes neither the connection nor its entry in the
map. -/
theorem act_event_frame (h : MapInv s) {i : ConnId} {conn : Conn} (hi : s.conns[i]? = some conn)
    (hfd : fd ≠ conn.client.fd) (ev : Events) :
    (s.act (.event fd ev)).conns[i]? = some conn ∧
      dictionaryGet (s.act (.event fd ev)).fdToClient conn.client.fd
        = dictionaryGet s.fdToClient conn.client.fd := by
  have hput : ∀ {j : ConnId} {u : Conn} {c : Ctx} {s' : Server},
      dictionaryGet s.fdToClient fd = some j → s.conns[j]? = some u →
      s'.conns = (s.put j c).conns → s'.fdToClient = c.fdToClient →
      (c.fdToClient = s.fdToClient ∨
        c.fdToClient = dictionaryRemove s.fdToClient u.client.fd) →
      s'.conns[i]? = some conn ∧ dictionaryGet s'.fdToClient conn.client.fd
        = dictionaryGet s.fdToClient conn.client.fd := by
    intro j u c s' hget hj hconns hmap hc
    obtain ⟨u', hj', -, hu⟩ := h.get hget
    obtain rfl := Option.some.inj (hj.symm.trans hj')
    have hij : i ≠ j := by
      rintro rfl
      obtain rfl := Option.some.inj (hi.symm.trans hj)
      exact hfd hu.symm
    rw [hconns, hmap, put_conns_of_ne c hij]
    refine ⟨hi, ?_⟩
    rcases hc with hc | hc
    · rw [hc]
    · rw [hc, dictionaryGet_dictionaryRemove h.nodup, hu, if_neg hfd.symm]
  have ht := act_turn h (.event fd ev)
  generalize s.act (.event fd ev) = s' at ht
  cases ht with
  | idle => exact ⟨hi, rfl⟩
  | handle hget hj _ hsteps =>
    exact hput hget hj rfl rfl (hsteps.map.imp And.right And.right)
  | error _ hget hj => exact hput hget hj rfl rfl (.inr (closeAndCleanup_fdToClient _))
  | useAfterFree _ hget hj _ hsteps =>
    exact hput hget hj rfl rfl (hsteps.map.imp And.right And.right)

end Server

namespace Lives

variable {s : Server} {es : List (Int × Events)}

theorem get_live (h : Lives s) {i : ConnId} {conn : Conn} (hi : s.conns[i]? = some conn)
    (hlive : conn.freed = false) : dictionaryGet s.fdToClient conn.client.fd = some i :=
  dictionaryGet_eq_of_mem h.map.nodup (h.complete i conn hi hlive)

theorem serveEvents (h : Lives s) (hes : ∀ e ∈ es, e.2.One) : Lives (s.serveEvents es) := by
  refine (h.run fun a ha => ?_).1
  obtain ⟨e, he, rfl⟩ := List.mem_map.mp ha
  exact hes e he

/-- A connection that is live now was there, and live, at the start. -/
theorem origin (h : Lives s) {j : ConnId} {conn : Conn}
    (hj : (s.serveEvents es).conns[j]? = some conn) (hlive : conn.freed = false) :
    ∃ conn₀, s.conns[j]? = some conn₀ ∧ conn₀.freed = false ∧
      conn₀.client.fd = conn.client.fd := by
  obtain ⟨hlt, -⟩ := List.getElem?_eq_some_iff.mp hj
  rw [Server.length_serveEvents h.map] at hlt
  have hj₀ := List.getElem?_eq_getElem hlt
  obtain ⟨conn', hj', hprogress⟩ := (Server.run_le h.map _).conns j _ hj₀
  obtain rfl := Option.some.inj (hj'.symm.trans hj)
  refine ⟨_, hj₀, ?_, hprogress.fd.symm⟩
  by_contra hfreed
  rw [hprogress.freed_true (by simpa using hfreed)] at hlive
  cases hlive

end Lives

/-! ### A connection in two runs -/

/-- The connection at index `i` has come to the same point in both servers. -/
structure Paired (t : Tree) (w : Path) (i : ConnId) (s alone : Server) (conn : Conn) : Prop where
  here : s.conns[i]? = some conn
  there : alone.conns[i]? = some conn
  alike : ∃ n o, Alike t w n o (s.ctx conn) (alone.ctx conn)
  request : RequestOk (s.ctx conn)
  asking : Asking w (s.ctx conn)

namespace Paired

variable {t : Tree} {v w : Path} {i j : ConnId} {s alone alone' : Server} {conn u : Conn}
  {ev : Events}

/-- While a request line is received the record has no name. -/
theorem header (h : Paired t w i s alone conn) (hf : s.fault = false) (hlive : conn.freed = false)
    {n : Path} {o : Path → Slot × Nat} (halike : Alike t w n o (s.ctx conn) (alone.ctx conn))
    (hs : conn.client.state = .recvHeader) : n = [] ∧ Asks w (s.ctx conn) := by
  obtain ⟨hnone, -⟩ := h.request.header hf hs
  refine ⟨?_, h.asking hf hlive hs⟩
  rw [← halike.own.name, h.request.name, hnone]
  rfl

/-- **Own step.** An event of the connection keeps both servers in step. -/
theorem own (h : Paired t w i s alone conn) (hw : EntryName w) (hlen : w.length ≤ 255)
    (hs : Lives s) (ha : Lives alone) (hlive : conn.freed = false) (hone : ev.One) :
    ∃ conn', Paired t w i (s.act (.event conn.client.fd ev))
      (alone.act (.event conn.client.fd ev)) conn' := by
  obtain ⟨n, o, halike⟩ := h.alike
  obtain ⟨n', hnext⟩ := halike.serveEvent hw hlen hlive (h.header hs.fault hlive halike) hone
  have hact := Server.act_event hs.fault (hs.get_live h.here hlive) h.here ev
  have hact' := Server.act_event ha.fault (ha.get_live h.there hlive) h.there ev
  have hhere : (s.act (.event conn.client.fd ev)).conns[i]?
      = some (serveEvent (s.ctx conn) ev).toConn := by
    rw [hact]
    exact Server.put_conns_self _ h.here
  refine ⟨(serveEvent (s.ctx conn) ev).toConn, hhere, ?_, ⟨n', o, ?_⟩, ?_, ?_⟩
  · rw [hact', Server.put_conns_self _ h.there, hnext.conn]
  · rw [hact, hact', Server.ctx_put, hnext.conn, Server.ctx_put]
    exact hnext
  · exact requestOk_stable.lasting.act hs.map _ h.here hhere h.request
  · exact (asking_kept w).lasting.act hs.map _ h.here hhere h.asking

/-- **Step of another connection.** An event of a connection that works on another name leaves this
one where it is. -/
theorem other (h : Paired t w i s alone conn) (hu : Paired t v j s alone' u) (hv : EntryName v)
    (hlen : v.length ≤ 255) (hs : Lives s) (hlive : u.freed = false) (hne : w ≠ v)
    (hfd : u.client.fd ≠ conn.client.fd) (hone : ev.One) :
    Paired t w i (s.act (.event u.client.fd ev)) alone conn := by
  obtain ⟨n, o, halike⟩ := h.alike
  obtain ⟨m, p, halike'⟩ := hu.alike
  obtain ⟨m', hnext⟩ := halike'.serveEvent hv hlen hlive (hu.header hs.fault hlive halike') hone
  have hact := Server.act_event hs.fault (hs.get_live hu.here hlive) hu.here ev
  have hhere := (Server.act_event_frame hs.map h.here hfd ev).1
  -- what the other connection leaves of this one's name
  have hkept := (hnext.others w hne).trans (halike'.others w hne).symm
  have hslot := congrArg Prod.fst hkept
  have hcount := congrArg Prod.snd hkept
  refine ⟨hhere, h.there, ⟨n, fun v => ((serveEvent (s.ctx u) ev).disk.slot (t.temp, v),
      (serveEvent (s.ctx u) ev).serverFiles.contents.count (some v)), ?_⟩,
    requestOk_stable.lasting.act hs.map _ h.here hhere h.request,
    (asking_kept w).lasting.act hs.map _ h.here hhere h.asking⟩
  rw [hact]
  exact ⟨halike.conn, halike.own, ⟨hnext.tree.1, halike.tree.2⟩, hslot.trans halike.slot,
    hcount.trans halike.listed, ⟨hnext.names.1, halike.names.2⟩, fun _ _ => rfl⟩

end Paired

/-! ### Clients of different files -/

/-- A client that has just connected, and that asks for the file `w` if it completes a request line
at all. -/
structure Requests (w : Path) (conn : Conn) : Prop where
  entry : EntryName w
  length : w.length ≤ 255
  new : conn = newConn conn.client.fd conn.script
  asks : ∀ q, requestOf (incoming conn.script.rx) = some q → AsksFor w q

/-- The clients that are connected ask for different files. -/
structure Clients (s : Server) (name : ConnId → Path) : Prop where
  requests : ∀ i conn, s.conns[i]? = some conn → conn.freed = false → Requests (name i) conn
  different : ∀ i j u v, s.conns[i]? = some u → u.freed = false → s.conns[j]? = some v →
    v.freed = false → name i = name j → i = j

/-- The events of one descriptor. -/
def eventsOf (fd : Int) (es : List (Int × Events)) : List (Int × Events) := es.filter (·.1 = fd)

theorem eventsOf_concat_self {fd : Int} (es : List (Int × Events)) (ev : Events) :
    eventsOf fd (es ++ [(fd, ev)]) = eventsOf fd es ++ [(fd, ev)] := by simp [eventsOf]

theorem eventsOf_concat_of_ne {fd fd' : Int} (h : fd' ≠ fd) (es : List (Int × Events))
    (ev : Events) : eventsOf fd (es ++ [(fd', ev)]) = eventsOf fd es := by simp [eventsOf, h]

section Clients

variable {s : Server} {name : ConnId → Path} {es : List (Int × Events)} {i : ConnId} {conn : Conn}

/-- At the start both runs are in the same state. -/
theorem Clients.paired (h : Clients s name) (hs : Lives s) (hi : s.conns[i]? = some conn)
    (hlive : conn.freed = false) : Paired s.disk.tree (name i) i s s conn := by
  obtain ⟨-, -, hnew, hasks⟩ := h.requests i conn hi hlive
  obtain ⟨ws, hws⟩ := hs.plenty.names
  have hnone : none ∉ s.serverFiles.contents := by
    rw [show s.serverFiles.contents = ws.map some from hws]
    simp
  have hown : Own (name i) [] (s.disk.tree.temp, name i) (s.ctx conn).toConn := by
    rw [show (s.ctx conn).toConn = newConn conn.client.fd conn.script from hnew]
    refine ⟨(hs.plenty.conns conn (List.mem_of_getElem? hi)).1, ?_, ?_, rfl, .inr ⟨rfl, rfl, ?_⟩⟩
    · exact fun _ hx => by cases hx
    · exact fun hv => by cases hv
    · exact fun hst => by rcases hst with hst | hst <;> cases hst
  refine ⟨hi, hi, ⟨[], fun v => _, rfl, hown, ⟨rfl, rfl⟩, rfl, rfl, ⟨hnone, hnone⟩,
    fun _ _ => rfl⟩, ?_, fun _ _ _ => ?_⟩
  · rw [hnew]
    exact requestOk_stable.new _ _ _
  · intro q hq
    refine hasks q ?_
    rw [hnew] at hq
    exact hq

/-- **Interleaving.** In every run each connection is where it is when its own events run alone. -/
theorem Clients.run (h : Clients s name) (hs : Lives s) (hes : ∀ e ∈ es, e.2.One) :
    ∀ i conn, s.conns[i]? = some conn → conn.freed = false →
      ∃ conn', Paired s.disk.tree (name i) i (s.serveEvents es)
        (s.serveEvents (eventsOf conn.client.fd es)) conn' := by
  induction es using List.reverseRecOn with
  | nil => exact fun i conn hi hlive => ⟨conn, h.paired hs hi hlive⟩
  | append_singleton es e ih =>
    obtain ⟨fd, ev⟩ := e
    have hes' : ∀ e ∈ es, e.2.One := fun e he => hes e (List.mem_append_left _ he)
    have hone : ev.One := hes (fd, ev) (by simp)
    have hlives := hs.serveEvents hes'
    have halone : ∀ fd, Lives (s.serveEvents (eventsOf fd es)) := fun fd =>
      hs.serveEvents fun e he => hes' e (List.mem_of_mem_filter he)
    intro i conn hi hlive
    obtain ⟨u, hu⟩ := ih hes' i conn hi hlive
    obtain ⟨hentry, hlen, -, -⟩ := h.requests i conn hi hlive
    have hfdu : u.client.fd = conn.client.fd := by
      obtain ⟨u', hu', hprogress⟩ := (Server.run_le hs.map _).conns i conn hi
      obtain rfl := Option.some.inj (hu'.symm.trans hu.here)
      exact hprogress.fd
    rw [Server.serveEvents_concat]
    by_cases hfd : fd = conn.client.fd
    · subst hfd
      rw [eventsOf_concat_self, Server.serveEvents_concat]
      by_cases hfreed : u.freed = false
      · rw [← hfdu]
        rw [← hfdu] at hu
        exact hu.own hentry hlen hlives (halone _) hfreed hone
      · -- a destroyed connection has no entry in either map
        have hgone : ∀ es' : List (Int × Events), (s.serveEvents es').conns[i]? = some u →
            Lives (s.serveEvents es') →
            dictionaryGet (s.serveEvents es').fdToClient conn.client.fd = none := by
          intro es' hi' hlives'
          by_contra hget
          obtain ⟨j, hget⟩ := Option.ne_none_iff_exists'.mp hget
          obtain ⟨v, hj, hv, hfdv⟩ := hlives'.map.get hget
          obtain ⟨v₀, hj₀, hv₀, hfd₀⟩ := hs.origin hj hv
          obtain rfl := hs.complete.unique hs.map hi hj₀ hlive hv₀ (hfdv.symm.trans hfd₀.symm)
          obtain rfl := Option.some.inj (hi'.symm.trans hj)
          exact hfreed hv
        rw [Server.act_event_none (hgone _ hu.here hlives),
          Server.act_event_none (hgone _ hu.there (halone _))]
        exact ⟨u, hu⟩
    · rw [eventsOf_concat_of_ne hfd]
      cases hget : dictionaryGet (s.serveEvents es).fdToClient fd with
      | none =>
        rw [Server.act_event_none hget]
        exact ⟨u, hu⟩
      | some j =>
        obtain ⟨v, hj, hv, rfl⟩ := hlives.map.get hget
        obtain ⟨v₀, hj₀, hv₀, hfd₀⟩ := hs.origin hj hv
        obtain ⟨v', hv'⟩ := ih hes' j v₀ hj₀ hv₀
        obtain rfl := Option.some.inj (hj.symm.trans hv'.here)
        obtain ⟨hentry', hlen', -, -⟩ := h.requests j v₀ hj₀ hv₀
        have hne : name i ≠ name j := fun hname => by
          obtain rfl := h.different i j conn v₀ hi hlive hj₀ hv₀ hname
          obtain rfl := Option.some.inj (hi.symm.trans hj₀)
          exact hfd hfd₀.symm
        exact ⟨u, hu.other hv' hentry' hlen' hlives hv hne (by rwa [hfdu]) hone⟩

/-- In a run a connection does what it does when its own events run alone. -/
structure Independent (s : Server) (es : List (Int × Events)) (i : ConnId) (fd : Int) (w : Path) :
    Prop where
  conn : (s.serveEvents es).conns[i]? = (s.serveEvents (eventsOf fd es)).conns[i]?
  file : (s.serveEvents es).disk.read (s.disk.tree.path w)
    = (s.serveEvents (eventsOf fd es)).disk.read (s.disk.tree.path w)
  listed : some w ∈ (s.serveEvents es).serverFiles.contents ↔
    some w ∈ (s.serveEvents (eventsOf fd es)).serverFiles.contents
  untouched : ∀ fd' ev, fd' ≠ fd →
    ((s.serveEvents es).act (.event fd' ev)).conns[i]? = (s.serveEvents es).conns[i]? ∧
    dictionaryGet ((s.serveEvents es).act (.event fd' ev)).fdToClient fd
      = dictionaryGet (s.serveEvents es).fdToClient fd

theorem Clients.independent (h : Clients s name) (hs : Lives s) (hes : ∀ e ∈ es, e.2.One)
    (hi : s.conns[i]? = some conn) (hlive : conn.freed = false) :
    Independent s es i conn.client.fd (name i) := by
  obtain ⟨u, hu⟩ := h.run hs hes i conn hi hlive
  obtain ⟨n, o, halike⟩ := hu.alike
  have hentry := (h.requests i conn hi hlive).entry
  have hresolve := s.disk.tree.resolve_entryName hentry
  refine ⟨hu.here.trans hu.there.symm, ?_, ?_, fun fd' ev hfd => ?_⟩
  · have htree : (s.serveEvents es).disk.tree = s.disk.tree := halike.tree.1
    refine Disk.read_congr (htree.trans halike.tree.2.symm) fun l hl => ?_
    rw [show (s.serveEvents (eventsOf conn.client.fd es)).disk.tree = s.disk.tree from
      halike.tree.2] at hl
    obtain rfl := Target.entry.inj (hl.symm.trans hresolve)
    exact halike.slot
  · have hcount : (s.serveEvents es).serverFiles.contents.count (some (name i))
        = (s.serveEvents (eventsOf conn.client.fd es)).serverFiles.contents.count (some (name i)) :=
      halike.listed
    rw [← List.count_pos_iff, ← List.count_pos_iff, hcount]
  · obtain ⟨u', hu', hprogress⟩ := (Server.run_le hs.map _).conns i conn hi
    obtain rfl := Option.some.inj (hu'.symm.trans hu.here)
    rw [← hprogress.fd] at hfd ⊢
    rw [hu.here]
    exact Server.act_event_frame (hs.serveEvents hes).map hu.here hfd ev

end Clients

/-- **Connections on different names do not interfere.** Let clients that ask for different files
be connected, after any run, and let their events come in any order.  Then each connection is at
every point where it is when its own events run alone, with the same file and the same listing of
its name, and no event of another one touches it. -/
theorem connections_independent (k : Disk) {pre : List Action} (hpre : ∀ a ∈ pre, a.Single)
    {name : ConnId → Path} (hclients : Clients ((Server.boot k).run pre) name)
    {es : List (Int × Events)} (hes : ∀ e ∈ es, e.2.One) {i : ConnId} {conn : Conn}
    (hi : ((Server.boot k).run pre).conns[i]? = some conn) (hlive : conn.freed = false) :
    Independent ((Server.boot k).run pre) es i conn.client.fd (name i) :=
  hclients.independent ((Lives.boot k).run hpre).1 hes hi hlive

/-- The input of a client that uploads a file with one byte, which is late. -/
def slowUpload (w : Path) (b : Byte) : List RxItem :=
  pushBack (ascii "PUT " ++ w ++ [newline] ++ sizeBytes 1) [.eagain, .data b []]

/-- Two clients that upload different files. -/
def slowUploads : List Action :=
  [.accept 5 ⟨slowUpload (ascii "x") 97, [.room 3], [], []⟩,
    .accept 6 ⟨slowUpload (ascii "y") 98, [.room 3], [], []⟩]

theorem slowUploads_conns : ((Server.boot bareDisk).run slowUploads).conns
    = [newConn 5 ⟨slowUpload (ascii "x") 97, [.room 3], [], []⟩,
      newConn 6 ⟨slowUpload (ascii "y") 98, [.room 3], [], []⟩] := by
  rfl

theorem requests_slowUpload {w : Path} (b : Byte) (fd : Int) (hw : EntryName w)
    (hlen : w.length ≤ 255) (hq : requestOf (incoming (slowUpload w b)) = some (.put w)) :
    Requests w (newConn fd ⟨slowUpload w b, [.room 3], [], []⟩) :=
  ⟨hw, hlen, rfl, fun _ hq' => .inr (.inl (Option.some.inj (hq'.symm.trans hq)))⟩

/-- An interleaving of their events. -/
def slowEvents : List (Int × Events) :=
  [(5, .onRead), (6, .onRead), (6, .onRead), (5, .onRead), (6, .onRead), (5, .onRead)]

theorem connections_independent_slowUploads :
    Independent ((Server.boot bareDisk).run slowUploads) slowEvents 0 5 (ascii "x") ∧
      (((Server.boot bareDisk).run slowUploads).serveEvents slowEvents).disk.read
        (bareDisk.tree.path (ascii "x")) = some [97] := by
  refine ⟨?_, by decide +kernel⟩
  have hclients : Clients ((Server.boot bareDisk).run slowUploads)
      fun i => if i = 0 then ascii "x" else ascii "y" := by
    constructor
    · rw [slowUploads_conns]
      intro i conn hi hlive
      match i, hi with
      | 0, hi =>
        obtain rfl := Option.some.inj hi
        exact requests_slowUpload _ _ (by decide) (by decide) (by decide +kernel)
      | 1, hi =>
        obtain rfl := Option.some.inj hi
        exact requests_slowUpload _ _ (by decide) (by decide) (by decide +kernel)
    · rw [slowUploads_conns]
      intro i j u v hu _ hv _ hname
      match i, j, hu, hv with
      | 0, 0, _, _ => rfl
      | 1, 1, _, _ => rfl
      | 0, 1, _, _ => exact absurd hname (by decide)
      | 1, 0, _, _ => exact absurd hname (by decide)
  have hi : ((Server.boot bareDisk).run slowUploads).conns[0]?
      = some (newConn 5 ⟨slowUpload (ascii "x") 97, [.room 3], [], []⟩) := by
    rw [slowUploads_conns]
    rfl
  exact connections_independent bareDisk (by simp [slowUploads, Action.Single]) hclients (by decide)
    hi rfl

end FileServer
