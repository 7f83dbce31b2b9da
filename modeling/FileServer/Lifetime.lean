/-
  The lifetime of a connection.

  `event_loop_wait` reports READ or WRITE for a descriptor only where the descriptor is
  registered for it.  A live connection is registered for one of the two, so no event
  asks for both; that is why `main` may read `client->state` behind
  `handle_read_event`.  Everything else about destroyed connections follows: each live
  one stands in the map, no destroyed one does, and handlers run on live ones only.

  Allocations succeed throughout.
-/
import FileServer.Equiv.Allocation
import FileServer.Interest

namespace FileServer

open Relation

/-! ### Closing once -/

/-- Whether a call is the closing of the connection. -/
def Call.closes : Call → Bool
  | close => true
  | _ => false

/-- How many times the connection was closed. -/
def Conn.closes (c : Conn) : Nat := c.log.countP Call.closes

theorem Conn.closes_of_log {a b : Conn} {l : List Call} (h : b.log = a.log ++ l) :
    b.closes = a.closes + l.countP Call.closes := by
  rw [closes, h, List.countP_append]
  rfl

theorem Conn.closes_eq {a b : Conn} {l : List Call} (h : b.log = a.log ++ l)
    (hl : l.countP Call.closes = 0) : b.closes = a.closes := by
  rw [closes_of_log h, hl, Nat.add_zero]

theorem Conn.closes_congr {a b : Conn} (h : b.log = a.log) : b.closes = a.closes :=
  congrArg (List.countP Call.closes) h

section Steps

variable {c c' : Ctx} {st : Status} {msg : List Byte}

theorem Choose.closes (h : Choose c c' st msg) : c'.closes = c.closes := by
  cases h with
  | tooLong => rfl
  | deleteFailed => exact Conn.closes_eq (List.append_assoc c.log [_] [_]) rfl
  | deleted =>
    refine (Conn.closes_congr (removeFileFromList_log ..)).trans ?_
    exact Conn.closes_eq (List.append_assoc c.log [_] [_]) rfl
  | getMissing => exact Conn.closes_eq (List.append_assoc c.log [_] [_]) rfl
  | getFailed => exact Conn.closes_eq (List.append_assoc c.log [_] [_]) rfl
  | getOpened => exact Conn.closes_eq (List.append_assoc c.log [_] [_]) rfl
  | accepted => exact Conn.closes_eq (acceptUpload_log c) rfl
  | listNoMemory =>
    refine (Conn.closes_congr (buildListBuffer_log _)).trans ?_
    exact Conn.closes_eq (l := [.write _ _]) rfl rfl
  | bodyFailed => exact Conn.closes_eq (l := [_]) rfl rfl
  | _ => exact Conn.closes_eq (l := [_]) rfl rfl

theorem Send.closes (h : Send c c') : c'.closes = c.closes := by
  have hline : ∀ {n : Nat} {i : Interest} {d : Ctx}, d.log = (sentLine c n).log →
      (d.modifyEventLoop i).closes = c.closes := by
    intro n i d hd
    have hmod : (d.modifyEventLoop i).closes = d.closes := Conn.closes_eq (l := [_]) rfl rfl
    refine hmod.trans ((Conn.closes_congr hd).trans ?_)
    exact Conn.closes_eq (l := [.write _ _]) rfl rfl
  cases h with
  | @linePart n => exact hline (n := n) rfl
  | @lineGet n => exact hline (n := n) rfl
  | @lineList n => exact hline (n := n) (by rw [Ctx.setClient_log, buildListBuffer_log])
  | loadSize hs hl => rw [loadGetSize_of_zero hl]; rfl
  | @sizeAll n => exact hline (n := n) rfl
  | _ => exact Conn.closes_eq (l := [.write _ _]) rfl rfl

theorem Close.closes (h : Close c c') : c'.closes = c.closes := by
  cases h with
  | header => exact Conn.closes_eq (l := [_]) rfl rfl
  | noFile => rfl
  | pread => rfl
  | got => rfl
  | _ => exact Conn.closes_eq (l := [.write _ _]) rfl rfl

theorem closeAndCleanup_closes (k : Ctx) : (closeAndCleanup k).closes = k.closes + 1 := by
  rw [Conn.closes_of_log (closeAndCleanup_log k)]
  split_ifs <;> rfl

/-- A connection is closed when it is destroyed. -/
def ClosedOnce (c : Ctx) : Prop := c.closes = c.freed.toNat

theorem ClosedOnce.close {k : Ctx} (hk : k.freed = false) (h : ClosedOnce k) :
    ClosedOnce (closeAndCleanup k) := by
  rw [ClosedOnce, closeAndCleanup_closes, h, hk]
  rfl

theorem ClosedOnce.congr (h : ClosedOnce c) (hcloses : c'.closes = c.closes)
    (hfreed : c'.freed = c.freed) : ClosedOnce c' :=
  hcloses.trans (h.trans (congrArg Bool.toNat hfreed).symm)

theorem ClosedOnce.step (hc : c.freed = false) (h : ClosedOnce c) (hstep : Step c c') :
    ClosedOnce c' := by
  cases hstep with
  | quiet hq =>
    cases hq with
    | read => exact h.congr (Conn.closes_eq (l := [_]) rfl rfl) rfl
    | write => exact h.congr (Conn.closes_eq rfl rfl) rfl
    | pread => exact h.congr rfl rfl
  | receive hr => cases hr <;> exact h.congr (Conn.closes_eq (l := [_]) rfl rfl) rfl
  | begin hb =>
    cases hb with
    | put => exact h.congr (Conn.closes_eq (List.append_assoc c.log [_] [_]) rfl) rfl
    | upload => exact h.congr (Conn.closes_eq (l := [_]) rfl rfl) rfl
  | @choose d st msg hch =>
    have hfill : (fillResponse d st msg).closes = d.closes := Conn.closes_eq (l := [_]) rfl rfl
    exact h.congr (hfill.trans hch.closes) hch.freed
  | send hs => exact h.congr hs.closes hs.freed
  | close hk => exact ClosedOnce.close (hk.freed.trans hc) (h.congr hk.closes hk.freed)
  | fault => exact h.congr (Conn.closes_eq (l := [_]) rfl rfl) rfl

end Steps

theorem closedOnce_stable : Stable ClosedOnce where
  step := fun _ _ hc h hstep => h.step hc hstep
  close := fun _ hc h => h.close hc
  globals := fun _ _ _ _ h => h
  new := fun _ _ _ => rfl

/-! ### Defined behaviour -/

section Steps

variable {c c' : Ctx} {st : Status} {msg : List Byte}

theorem Choose.fault (h : Choose c c' st msg) (hm : MemOk c) : c'.fault = c.fault := by
  obtain ⟨ws, hws⟩ := hm.names
  cases h with
  | @deleted w i hl =>
    generalize hd : ((takeLine c (.delete w)).sysUnlink (takeLine c (.delete w)).filepath).2 = d
    have hnames : Names d.serverFiles ws := by rw [← hd]; exact hws
    refine (names_removeFileFromList hnames _).2.trans ?_
    rw [← hd]
    rfl
  | accepted =>
    generalize hd : (readExtra c).2.note (.accept c.client.filename) = d
    have hnames : Names d.serverFiles ws := by rw [← hd]; exact hws
    have hmem : d.script.mem = [] := by rw [← hd]; exact (Script.read_mem ..).trans hm.mem
    have hacc : acceptUpload c = addFileToList d c.client.filename := by rw [← hd]; rfl
    rw [hacc]
    refine (names_addFileToList hnames hmem _).2.1.trans ?_
    rw [← hd]
    rfl
  | listNoMemory => exact absurd ‹_› hm.buildListBuffer.1
  | _ => rfl

theorem Send.fault (h : Send c c') (hm : MemOk c) : c'.fault = c.fault := by
  cases h with
  | @lineList n =>
    rw [hm.buildListBuffer.2]
    rfl
  | loadSize hs hl => rw [loadGetSize_of_zero hl]; rfl
  | _ => rfl

/-- With memory to be had, no `NULL` is dereferenced. -/
theorem Step.fault_eq (h : Step c c') (hm : MemOk c) : c'.fault = c.fault := by
  cases h with
  | quiet h => cases h <;> rfl
  | receive h => cases h <;> rfl
  | begin h => cases h <;> rfl
  | choose h => exact h.fault hm
  | send h => exact h.fault hm
  | close h => exact (closeAndCleanup_fault _).trans h.fault
  | @fault w hl hf =>
    obtain ⟨ws, hws⟩ := hm.names
    rw [hws, searchName_map] at hf
    split_ifs at hf

theorem Steps.fault_eq (h : Steps c c') (hm : MemOk c) : c'.fault = c.fault := by
  have hrun := Chain.invariant (P := fun x : Ctx => MemOk x ∧ x.fault = c.fault)
    (fun x y hxy ⟨hx, hf⟩ => ⟨hx.step hxy.2, (hxy.2.fault_eq hx).trans hf⟩) h ⟨hm, rfl⟩
  exact hrun.2

end Steps

/-! ### The map -/

/-- Every live connection stands in the map. -/
def Complete (s : Server) : Prop := ∀ (i : ConnId) conn, s.conns[i]? = some conn →
  conn.freed = false → ⟨conn.client.fd, some i⟩ ∈ s.fdToClient.contents

/-- An entry of a map is determined by its key. -/
theorem eq_of_key_eq {d : FssDictionary ConnId} (hd : d.keys.Nodup)
    {e e' : DictionaryEntry ConnId} (he : e ∈ d.contents) (he' : e' ∈ d.contents)
    (hkey : e.key = e'.key) : e = e' :=
  List.inj_on_of_nodup_map hd he he' hkey

namespace Complete

variable {s : Server}

/-- No two live connections have one descriptor. -/
theorem unique (h : Complete s) (hm : MapInv s) {i j : ConnId} {conn conn' : Conn}
    (hi : s.conns[i]? = some conn) (hj : s.conns[j]? = some conn') (hlive : conn.freed = false)
    (hlive' : conn'.freed = false) (hfd : conn.client.fd = conn'.client.fd) : i = j := by
  have heq := eq_of_key_eq hm.nodup (h i conn hi hlive) (h j conn' hj hlive') hfd
  exact Option.some.inj (congrArg DictionaryEntry.value heq)

theorem put_live (h : Complete s) {i : ConnId} {conn : Conn} {c : Ctx}
    (hi : s.conns[i]? = some conn) (hlive : conn.freed = false)
    (hfd : c.client.fd = conn.client.fd) (hmap : c.fdToClient = s.fdToClient) :
    Complete (s.put i c) := by
  intro j conn' hj hlive'
  rw [Server.put_toGlobals, hmap]
  by_cases hji : j = i
  · subst hji
    rw [Server.put_conns_self c hi] at hj
    obtain rfl := Option.some.inj hj
    rw [hfd]
    exact h j conn hi hlive
  · rw [Server.put_conns_of_ne c hji] at hj
    exact h j conn' hj hlive'

theorem put_freed (h : Complete s) (hm : MapInv s) {i : ConnId} {conn : Conn} {c : Ctx}
    (hi : s.conns[i]? = some conn) (hlive : conn.freed = false) (hc : c.freed = true)
    (hmap : c.fdToClient = dictionaryRemove s.fdToClient conn.client.fd) :
    Complete (s.put i c) := by
  intro j conn' hj hlive'
  rw [Server.put_toGlobals, hmap, mem_contents_dictionaryRemove hm.nodup]
  by_cases hji : j = i
  · subst hji
    rw [Server.put_conns_self c hi] at hj
    obtain rfl := Option.some.inj hj
    cases hc.symm.trans hlive'
  · rw [Server.put_conns_of_ne c hji] at hj
    exact ⟨h j conn' hj hlive', fun hfd => hji (h.unique hm hj hi hlive' hlive hfd)⟩

/-- `accept_connections` enters the new connection. -/
theorem accept (h : Complete s) (hm : MapInv s) {fd : Int} {script : Script}
    (hfd : ¬ s.fdOpen fd) : Complete { s with
      fdToClient := dictionarySet s.fdToClient fd (some s.conns.length) true
      conns := s.conns ++ [newConn fd script] } := by
  intro j conn hj hlive
  have hcont : (dictionarySet s.fdToClient fd (some s.conns.length) true).contents
      = s.fdToClient.contents ++ [⟨fd, some s.conns.length⟩] := by
    rw [contents_dictionarySet_new (hm.not_mem_keys hfd), if_neg (by simp)]
  change _ ∈ (dictionarySet s.fdToClient fd (some s.conns.length) true).contents
  rw [hcont]
  rcases Nat.lt_or_ge j s.conns.length with hlt | hge
  · have hj' : s.conns[j]? = some conn := (List.getElem?_append_left hlt).symm.trans hj
    exact List.mem_append_left _ (h j conn hj' hlive)
  · obtain ⟨hlen, -⟩ := List.getElem?_eq_some_iff.mp hj
    have hj' : j = s.conns.length := by
      have hlen' : j < (s.conns ++ [newConn fd script]).length := hlen
      rw [List.length_append, List.length_singleton] at hlen'
      exact Nat.le_antisymm (Nat.lt_succ_iff.mp hlen') hge
    subst hj'
    have hconn : some (newConn fd script) = some conn := by
      rw [← hj]
      simp
    obtain rfl := Option.some.inj hconn
    exact List.mem_append_right _ (List.mem_singleton_self _)

end Complete

/-! ### One action -/

/-- Nothing but a live connection changes: one is opened, or handlers run on one that is live, and
every step of theirs starts while it is. -/
inductive OnlyLive (s : Server) : Server → Prop
  | idle : OnlyLive s s
  | opened {fd : Int} {script : Script} {d : FssDictionary ConnId} (hfd : ¬ s.fdOpen fd) :
      OnlyLive s { s with fdToClient := d, conns := s.conns ++ [newConn fd script] }
  | handled {i : ConnId} {conn : Conn} {c : Ctx} (hi : s.conns[i]? = some conn)
      (hlive : conn.freed = false) (hsteps : Steps (s.ctx conn) c) : OnlyLive s (s.put i c)
  | closed {i : ConnId} {conn : Conn} (hi : s.conns[i]? = some conn) (hlive : conn.freed = false) :
      OnlyLive s (s.put i (closeAndCleanup (s.ctx conn)))

/-- Memory is to be had, and an event does not report READ and WRITE together. -/
def Action.Single : Action → Prop
  | .accept _ script => script.mem = []
  | .event _ ev => ¬ (ev.read = true ∧ ev.write = true)

theorem Action.Single.plenty {a : Action} (h : a.Single) : a.Plenty := by
  cases a with
  | accept => exact h
  | event => trivial

/-- The invariant of the loop of `main`. -/
structure Lives (s : Server) : Prop where
  map : MapInv s
  complete : Complete s
  plenty : Plenty s
  fault : s.fault = false
  registered : ∀ conn ∈ s.conns, Registered (s.ctx conn)
  closed : ∀ conn ∈ s.conns, ClosedOnce (s.ctx conn)

namespace Lives

variable {s : Server}

theorem boot (k : Disk) : Lives (Server.boot k) where
  map := .boot k
  complete := fun i conn hi => by cases hi
  plenty := .boot k
  fault := rfl
  registered := fun conn hmem => by cases hmem
  closed := fun conn hmem => by cases hmem

/-- What an action does to the map and to the connections. -/
theorem act_onlyLive (h : Lives s) {a : Action} (ha : a.Single) :
    OnlyLive s (s.act a) ∧ Complete (s.act a) ∧ (s.act a).fault = false := by
  have hmem : ∀ {i : ConnId} {conn}, s.conns[i]? = some conn → MemOk (s.ctx conn) := fun hi =>
    ⟨(h.plenty.conns _ (List.mem_of_getElem? hi)).1, h.plenty.names⟩
  have ht := Server.act_turn h.map a
  generalize s.act a = s' at ht
  cases ht with
  | idle => exact ⟨.idle, h.complete, h.fault⟩
  | @accept fd script rest grow hfd hrx htx hfx hmem =>
    obtain ⟨rfl, rfl⟩ := hmem ha
    exact ⟨.opened hfd, h.complete.accept h.map hfd, h.fault⟩
  | @handle fd ev i conn c hget hi hlive hsteps =>
    refine ⟨.handled hi hlive hsteps, ?_, (hsteps.fault_eq (hmem hi)).trans h.fault⟩
    -- a handler either keeps the entry of its connection or destroys both
    rcases hsteps.map with ⟨hfreed, hmap⟩ | ⟨hfreed, hmap⟩
    · exact h.complete.put_live hi hlive hsteps.progress.fd hmap
    · exact h.complete.put_freed h.map hi hlive hfreed hmap
  | error hev hget hi hlive =>
    refine ⟨.closed hi hlive, ?_, (closeAndCleanup_fault _).trans h.fault⟩
    exact h.complete.put_freed h.map hi hlive rfl (closeAndCleanup_fdToClient _)
  | noMemory hmem => exact absurd ha hmem
  | useAfterFree hev => exact absurd hev ha

theorem act (h : Lives s) {a : Action} (ha : a.Single) : Lives (s.act a) where
  map := h.map.act a
  complete := (h.act_onlyLive ha).2.1
  plenty := h.plenty.act h.map (fun conn hmem => (h.registered conn hmem).conn) ha.plenty
  fault := (h.act_onlyLive ha).2.2
  registered := registered_resting.act h.map (fun _ _ _ _ _ _ _ => trivial) h.registered
  closed := (closedOnce_stable.resting fun _ _ => True).act h.map (fun _ _ _ _ _ _ _ => trivial)
    h.closed

/-- A descriptor that is registered for READ is not registered for WRITE. -/
theorem not_both (h : Lives s) {fd : Int} {i j : Interest}
    (hi : ∃ conn ∈ s.conns, conn.freed = false ∧ conn.client.fd = fd ∧ conn.interest = some i)
    (hj : ∃ conn ∈ s.conns, conn.freed = false ∧ conn.client.fd = fd ∧ conn.interest = some j) :
    i = j := by
  obtain ⟨conn, hmem, hlive, hfd, hint⟩ := hi
  obtain ⟨conn', hmem', hlive', hfd', hint'⟩ := hj
  obtain ⟨a, ha⟩ := List.getElem?_of_mem hmem
  obtain ⟨b, hb⟩ := List.getElem?_of_mem hmem'
  obtain rfl := h.complete.unique h.map ha hb hlive hlive' (hfd.trans hfd'.symm)
  obtain rfl := Option.some.inj (ha.symm.trans hb)
  exact Option.some.inj (hint.symm.trans hint')

end Lives

/-! ### Batches -/

/-- The actions that `accept_connections` takes. -/
def acceptActions : List AcceptResult → List Action
  | [] => []
  | .conn fd script :: results => .accept fd script :: acceptActions results
  | .eagain :: _ => []
  | .eintr :: results => acceptActions results
  | .err :: _ => []

theorem acceptConnections_run (s : Server) (results : List AcceptResult) :
    (s.acceptConnections results).1 = s.run (acceptActions results) := by
  induction results generalizing s with
  | nil => rfl
  | cons r results ih =>
    cases r with
    | conn fd script => exact ih _
    | eagain => rfl
    | eintr => exact ih s
    | err => rfl

/-- The actions of one pass through the `for` loop. -/
def FssEvent.actions : FssEvent → List Action
  | .listen results => acceptActions results
  | .client fd events => [.event fd events]

theorem serveFssEvent_run (s : Server) (e : FssEvent) : s.serveFssEvent e = s.run e.actions := by
  cases e with
  | listen results => exact acceptConnections_run s results
  | client fd events => rfl

theorem serveBatch_run (s : Server) (batch : List FssEvent) :
    s.serveBatch batch = s.run (batch.flatMap FssEvent.actions) := by
  induction batch generalizing s with
  | nil => rfl
  | cons e batch ih =>
    -- the events of one batch are handled one after the other
    rw [List.flatMap_cons, Server.run, List.foldl_append]
    refine (ih (s.serveFssEvent e)).trans ?_
    rw [serveFssEvent_run]
    rfl

theorem serve_run (s : Server) (batches : List (List FssEvent)) :
    s.serve batches = s.run (batches.flatMap fun b => b.flatMap FssEvent.actions) := by
  induction batches generalizing s with
  | nil => rfl
  | cons b batches ih =>
    rw [List.flatMap_cons, Server.run, List.foldl_append]
    refine (ih (s.serveBatch b)).trans ?_
    rw [serveBatch_run]
    rfl

/-- The allocations for the connections that are accepted succeed. -/
def FssEvent.Plenty : FssEvent → Prop
  | .listen results => ∀ fd script, .conn fd script ∈ results → script.mem = []
  | .client _ _ => True

/-- A connection is registered for a kind of event on the descriptor. -/
def Server.Watches (s : Server) (fd : Int) (i : Interest) : Prop :=
  ∃ conn ∈ s.conns, conn.freed = false ∧ conn.client.fd = fd ∧ conn.interest = some i

/-- What `event_loop_wait` may return in the state `s`: READ and WRITE are reported where they are
registered.  Nothing is asked of errors, of the order, and of how often a descriptor is named. -/
def Reported (s : Server) (batch : List FssEvent) : Prop := ∀ fd ev, .client fd ev ∈ batch →
  (ev.read = true → s.Watches fd .read) ∧ (ev.write = true → s.Watches fd .write)

theorem acceptActions_plenty {results : List AcceptResult}
    (h : ∀ fd script, .conn fd script ∈ results → script.mem = []) :
    ∀ a ∈ acceptActions results, a.Single := by
  induction results with
  | nil => exact fun a ha => absurd ha List.not_mem_nil
  | cons r results ih =>
    have htail := ih fun fd script hmem => h fd script (List.mem_cons_of_mem _ hmem)
    cases r with
    | conn fd script =>
      intro a ha
      rcases List.mem_cons.mp ha with rfl | ha
      · exact h fd script (List.mem_cons_self ..)
      · exact htail a ha
    | eagain => exact fun a ha => absurd ha List.not_mem_nil
    | eintr => exact htail
    | err => exact fun a ha => absurd ha List.not_mem_nil

/-- What is reported for one connection is a single kind of event. -/
theorem Lives.single {s : Server} (h : Lives s) {batch : List FssEvent}
    (hplenty : ∀ e ∈ batch, e.Plenty) (hrep : Reported s batch) {e : FssEvent} (he : e ∈ batch) :
    ∀ a ∈ e.actions, a.Single := by
  cases e with
  | listen results => exact acceptActions_plenty (hplenty _ he)
  | client fd ev =>
    intro a ha
    obtain rfl := List.mem_singleton.mp ha
    rintro ⟨hr, hw⟩
    -- both kinds would need two connections with one descriptor
    obtain ⟨hread, hwrite⟩ := hrep fd ev he
    cases h.not_both (hread hr) (hwrite hw)

theorem Lives.run {s : Server} (h : Lives s) {acts : List Action} (ha : ∀ a ∈ acts, a.Single) :
    Lives (s.run acts) ∧ ReflTransGen OnlyLive s (s.run acts) := by
  induction acts generalizing s with
  | nil => exact ⟨h, .refl⟩
  | cons a acts ih =>
    rw [List.forall_mem_cons] at ha
    obtain ⟨hlives, hchain⟩ := ih (h.act ha.1) ha.2
    exact ⟨hlives, .head (h.act_onlyLive ha.1).1 hchain⟩

/-- Part of a batch. -/
theorem Lives.serveBatch {s : Server} (h : Lives s) {batch : List FssEvent}
    (hplenty : ∀ e ∈ batch, e.Plenty) (hrep : Reported s batch) {done : List FssEvent}
    (hdone : ∀ e ∈ done, e ∈ batch) : Lives (s.serveBatch done) := by
  rw [serveBatch_run]
  refine (h.run fun a ha => ?_).1
  obtain ⟨e, he, hae⟩ := List.mem_flatMap.mp ha
  exact h.single hplenty hrep (hdone e he) a hae

theorem Lives.serve (k : Disk) {batches : List (List FssEvent)}
    (hplenty : ∀ b ∈ batches, ∀ e ∈ b, e.Plenty)
    (hrep : ∀ pre b post, batches = pre ++ b :: post → Reported ((Server.boot k).serve pre) b) :
    Lives ((Server.boot k).serve batches) :=
  Chain.run_between (Server.boot k) batches (fun pre b post heq h => by
    have hmem : b ∈ batches := heq ▸ List.mem_append_right _ (List.mem_cons_self ..)
    exact h.serveBatch (hplenty b hmem) (hrep pre b post heq) fun _ => id) (.boot k)

/-! ### Runs -/

/-- What holds of the connections at any time. -/
structure Lifetimes (s : Server) : Prop where
  /-- `main` has not read `client->state` of a destroyed connection. -/
  defined : s.fault = false
  keys_nodup : s.fdToClient.keys.Nodup
  keys : ∀ fd, fd ∈ s.fdToClient.keys ↔ s.fdOpen fd
  client : ∀ fd ∈ s.fdToClient.keys, ∃ i conn, dictionaryGet s.fdToClient fd = some i ∧
    s.conns[i]? = some conn ∧ conn.freed = false ∧ conn.client.fd = fd
  registered : ∀ conn ∈ s.conns, conn.freed = false →
    (conn.interest = some .read ∨ conn.interest = some .write) ∧
      ¬ (conn.interest = some .read ∧ conn.interest = some .write)
  /-- A live connection was never closed, a destroyed one once. -/
  closed : ∀ conn ∈ s.conns, conn.closes = conn.freed.toNat

theorem Lives.lifetimes {s : Server} (h : Lives s) : Lifetimes s where
  defined := h.fault
  keys_nodup := h.map.nodup
  keys := fun fd => by
    constructor
    · intro hmem
      by_contra hfd
      exact h.map.not_mem_keys hfd hmem
    · rintro ⟨conn, hmem, hlive, rfl⟩
      obtain ⟨i, hi⟩ := List.getElem?_of_mem hmem
      exact List.mem_map.mpr ⟨_, h.complete i conn hi hlive, rfl⟩
  client := fun fd hmem => by
    obtain ⟨e, he, rfl⟩ := List.mem_map.mp hmem
    obtain ⟨i, conn, hvalue, hi, hlive, hfd⟩ := h.map.live e he
    exact ⟨i, conn, (dictionaryGet_eq_of_mem h.map.nodup he).trans hvalue, hi, hlive, hfd⟩
  registered := fun conn hmem hlive => by
    refine ⟨?_, fun ⟨hr, hw⟩ => by cases hr.symm.trans hw⟩
    have hsome : conn.interest ≠ none := (h.registered conn hmem).alive hlive
    match hint : conn.interest with
    | none => exact absurd hint hsome
    | some .read => exact .inl rfl
    | some .write => exact .inr rfl
  closed := h.closed

/-- A destroyed connection stays as it is. -/
def Untouched (s s' : Server) : Prop := ∀ (i : ConnId) conn, s.conns[i]? = some conn →
  conn.freed = true → s'.conns[i]? = some conn

theorem untouched_run {s : Server} (h : MapInv s) (acts : List Action) :
    Untouched s (s.run acts) := by
  intro i conn hi hfreed
  obtain ⟨conn', hi', hprogress⟩ := (Server.run_le h acts).conns i conn hi
  rw [hi', hprogress.freed hfreed]

/-- **Connection lifetime.** At every point of a run, also within a batch, the map holds exactly
the live connections, each registered for READ or for WRITE and never closed, and no destroyed
connection has been read.  What happens next touches live connections only, and those that are
destroyed stay as they are to the end of the run. -/
theorem connection_lifetime (k : Disk) {batches : List (List FssEvent)}
    (hplenty : ∀ b ∈ batches, ∀ e ∈ b, e.Plenty)
    (hrep : ∀ pre b post, batches = pre ++ b :: post → Reported ((Server.boot k).serve pre) b) :
    ∀ pre b post, batches = pre ++ b :: post → ∀ done rest, b = done ++ rest →
      Lifetimes (((Server.boot k).serve pre).serveBatch done) ∧
      Untouched (((Server.boot k).serve pre).serveBatch done) ((Server.boot k).serve batches) ∧
      ∀ e ∈ rest.head?, ReflTransGen OnlyLive (((Server.boot k).serve pre).serveBatch done)
        ((((Server.boot k).serve pre).serveBatch done).serveFssEvent e) := by
  intro pre b post heq done rest hb
  have hmem : b ∈ batches := heq ▸ List.mem_append_right _ (List.mem_cons_self ..)
  have hlives : Lives ((Server.boot k).serve pre) := by
    refine Lives.serve k (fun b' hb' => hplenty b' (heq ▸ List.mem_append_left _ hb')) ?_
    intro pre' b' post' hpre
    exact hrep pre' b' (post' ++ b :: post) (by rw [heq, hpre, List.append_assoc]; rfl)
  have hdone : Lives (((Server.boot k).serve pre).serveBatch done) :=
    hlives.serveBatch (hplenty b hmem) (hrep pre b post heq) fun e he =>
      hb ▸ List.mem_append_left _ he
  refine ⟨hdone.lifetimes, ?_, fun e he => ?_⟩
  · -- what is left of the run
    have hend : (Server.boot k).serve batches
        = ((((Server.boot k).serve pre).serveBatch done).serveBatch rest).serve post := by
      rw [heq, hb]
      simp only [Server.serve, Server.serveBatch, List.foldl_append, List.foldl_cons]
    rw [hend]
    generalize ((Server.boot k).serve pre).serveBatch done = t at hdone
    rw [serve_run, serveBatch_run, Server.run, Server.run, ← List.foldl_append]
    exact untouched_run hdone.map _
  · have hrest : e ∈ b := by
      rw [hb]
      exact List.mem_append_right _ (List.mem_of_mem_head? he)
    rw [serveFssEvent_run]
    exact (hdone.run (hlives.single (hplenty b hmem) (hrep pre b post heq) hrest)).2

/-- A client hangs up, and in the same batch another one is accepted under its descriptor. -/
def reuse : List (List FssEvent) :=
  [[.listen [.conn 5 ⟨[.eof], [], [], []⟩]],
    [.client 5 .onRead, .listen [.conn 5 ⟨[], [], [], []⟩]]]

theorem connection_lifetime_reuse : ((Server.boot bareDisk).serve reuse).conns.length = 2 ∧
    Lifetimes ((Server.boot bareDisk).serve reuse) := by
  refine ⟨by decide +kernel, ?_⟩
  have hplenty : ∀ b ∈ reuse, ∀ e ∈ b, e.Plenty := by
    simp [reuse, FssEvent.Plenty]
  have hwatch : ((Server.boot bareDisk).serve (reuse.take 1)).Watches 5 .read := by
    have h : ∃ conn ∈ ((Server.boot bareDisk).serve (reuse.take 1)).conns,
        conn.freed = false ∧ conn.client.fd = 5 ∧ conn.interest = some .read := by decide +kernel
    exact h
  have hrep : ∀ pre b post, reuse = pre ++ b :: post →
      Reported ((Server.boot bareDisk).serve pre) b := by
    intro pre b post heq fd ev hmem
    match pre, heq with
    | [], heq =>
      obtain rfl := (List.cons.inj heq).1
      simp at hmem
    | [_], heq =>
      obtain ⟨rfl, hrest⟩ := List.cons.inj heq
      obtain rfl := (List.cons.inj hrest).1
      obtain ⟨rfl, rfl⟩ : fd = 5 ∧ ev = .onRead := by simpa using hmem
      exact ⟨fun _ => hwatch, fun hw => by cases hw⟩
    | _ :: _ :: _, heq => exact absurd (congrArg List.length heq) (by simp [reuse])
  exact (connection_lifetime bareDisk hplenty hrep (reuse.take 1) _ [] rfl _ []
    (List.append_nil _).symm).1

end FileServer
