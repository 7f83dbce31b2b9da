/-
  The server and its event loop.

  `accept` opens a descriptor, `accept_connections` adds it to the loop, the handlers
  modify it, and `close_and_cleanup` removes it before it is closed.  `Server.loopTrace`
  are these calls, read off the logs.  In every run each of them is allowed when it
  comes, and the loop holds what the records of the live connections say
  (`Registers`), with either implementation.  So what `event_loop_wait` may report is
  known from the code (`polled_run`), and the assumption of `connection_lifetime` holds.
-/
import FileServer.EventLoop
import FileServer.Lifetime

namespace FileServer

/-! ### Calls of the server -/

/-- The argument of `event_loop_modify`. -/
def Interest.events : Interest → Events
  | .read => .onRead
  | .write => .onWrite

/-- What a call of a connection asks of the loop. -/
def Call.loopCalls (fd : Int) : Call → List LoopCall
  | .modify i => [.modify fd i.events]
  | .close => [.remove fd, .close fd]
  | _ => []

namespace Server

/-- The log of a connection. -/
def logged (s : Server) (i : ConnId) : List Call := s.conns[i]?.elim [] Conn.log

/-- The calls for the loop in one action. -/
def loopCalls (s : Server) : Action → List LoopCall
  | .accept fd script =>
    if (s.act (.accept fd script)).conns.length = s.conns.length then []
    else [.opened fd, .add fd .onRead]
  | .event fd ev =>
    match dictionaryGet s.fdToClient fd with
    | none => []
    | some i =>
      (((s.act (.event fd ev)).logged i).drop (s.logged i).length).flatMap (Call.loopCalls fd)

/-- The calls for the loop in a run. -/
def loopTrace : Server → List Action → List LoopCall
  | _, [] => []
  | s, a :: acts => s.loopCalls a ++ (s.act a).loopTrace acts

end Server

/-! ### One step -/

/-- A call that is none for the loop. -/
def Call.Idle (x : Call) : Prop := ∀ fd, x.loopCalls fd = []

/-- What a step does to the registration of its connection. -/
inductive Rewatch (c c' : Ctx) : Prop
  | kept {l : List Call} (hlog : c'.log = c.log ++ l) (hl : ∀ x ∈ l, x.Idle)
      (hint : c'.interest = c.interest) (hfreed : c'.freed = c.freed)
  | modified {l : List Call} {i : Interest} (hlog : c'.log = c.log ++ (l ++ [.modify i]))
      (hl : ∀ x ∈ l, x.Idle) (hint : c'.interest = some i) (hfreed : c'.freed = c.freed)
  | closed {l l' : List Call} (hlog : c'.log = c.log ++ (l ++ .close :: l'))
      (hl : ∀ x ∈ l, x.Idle) (hl' : ∀ x ∈ l', x.Idle) (hint : c'.interest = none)
      (hfreed : c'.freed = true)

section Steps

variable {c c' c'' : Ctx} {st : Status} {msg : List Byte}

theorem idle_nil : ∀ x ∈ ([] : List Call), x.Idle := fun _ h => absurd h List.not_mem_nil

theorem idle_singleton {x : Call} (h : x.Idle) : ∀ y ∈ [x], y.Idle := fun _ hy =>
  List.mem_singleton.mp hy ▸ h

theorem Choose.rewatch (h : Choose c c' st msg) :
    ∃ l, c'.log = c.log ++ l ∧ (∀ x ∈ l, x.Idle) ∧ c'.interest = c.interest := by
  have hone : ∀ {x : Call}, x.Idle → ∀ y ∈ [x], y.Idle := idle_singleton
  have htwo : ∀ {x y : Call}, x.Idle → y.Idle → ∀ z ∈ [x, y], z.Idle := fun hx hy z hz => by
    rcases List.mem_cons.mp hz with rfl | hz
    · exact hx
    · exact hone hy z hz
  cases h with
  | tooLong => exact ⟨[], (List.append_nil _).symm, idle_nil, rfl⟩
  | deleteFailed =>
    exact ⟨_, List.append_assoc c.log [_] [_], htwo (fun _ => rfl) fun _ => rfl, rfl⟩
  | deleted =>
    refine ⟨_, (removeFileFromList_log ..).trans (List.append_assoc c.log [_] [_]),
      htwo (fun _ => rfl) fun _ => rfl, ?_⟩
    rw [removeFileFromList_interest]
    rfl
  | getMissing =>
    exact ⟨_, List.append_assoc c.log [_] [_], htwo (fun _ => rfl) fun _ => rfl, rfl⟩
  | getFailed =>
    exact ⟨_, List.append_assoc c.log [_] [_], htwo (fun _ => rfl) fun _ => rfl, rfl⟩
  | getOpened =>
    exact ⟨_, List.append_assoc c.log [_] [_], htwo (fun _ => rfl) fun _ => rfl, rfl⟩
  | openFailed => exact ⟨_, rfl, hone fun _ => rfl, rfl⟩
  | bodyFailed => exact ⟨_, rfl, hone fun _ => rfl, rfl⟩
  | accepted =>
    refine ⟨_, acceptUpload_log c, htwo (fun _ => rfl) fun _ => rfl, ?_⟩
    rw [acceptUpload, addFileToList_interest]
    rfl
  | @listNoMemory n =>
    refine ⟨_, buildListBuffer_log _, idle_singleton fun _ => rfl, ?_⟩
    rw [buildListBuffer_interest]
    rfl
  | _ => exact ⟨_, rfl, hone fun _ => rfl, rfl⟩

theorem Send.rewatch (h : Send c c') : Rewatch c c' := by
  have hsent : ∀ (n : Nat) (i : Interest) (d : Ctx), d.log = (sentLine c n).log →
      d.freed = c.freed → Rewatch c (d.modifyEventLoop i) := by
    intro n i d hd hfreed
    obtain ⟨l, hlog, hl⟩ : ∃ l, (sentLine c n).log = c.log ++ l ∧ ∀ x ∈ l, x.Idle :=
      ⟨_, rfl, idle_singleton fun _ => rfl⟩
    refine .modified (l := l) ?_ hl rfl hfreed
    rw [Ctx.modifyEventLoop_log, hd, hlog, List.append_assoc]
  cases h with
  | @linePart n => exact hsent n _ _ rfl rfl
  | @lineGet n => exact hsent n _ _ rfl rfl
  | @lineList n =>
    refine hsent n _ _ ?_ ?_
    · rw [Ctx.setClient_log, buildListBuffer_log]
    · rw [Ctx.setClient_freed, buildListBuffer_freed]
      rfl
  | loadSize hs hl =>
    rw [loadGetSize_of_zero hl]
    exact .kept (List.append_nil _).symm idle_nil rfl rfl
  | @sizeAll n => exact hsent n _ _ rfl rfl
  | _ => exact .kept rfl (idle_singleton fun _ => rfl) rfl rfl

theorem Close.rewatch (h : Close c c') :
    ∃ l, c'.log = c.log ++ l ∧ (∀ x ∈ l, x.Idle) ∧ c'.interest = c.interest := by
  cases h with
  | header => exact ⟨_, rfl, idle_singleton fun _ => rfl, rfl⟩
  | noFile => exact ⟨[], (List.append_nil _).symm, idle_nil, rfl⟩
  | pread => exact ⟨[], (List.append_nil _).symm, idle_nil, rfl⟩
  | got => exact ⟨[], (List.append_nil _).symm, idle_nil, rfl⟩
  | _ => exact ⟨_, rfl, idle_singleton fun _ => rfl, rfl⟩

theorem closeAndCleanup_rewatch {l : List Call} (hlog : c'.log = c.log ++ l)
    (hl : ∀ x ∈ l, x.Idle) : Rewatch c (closeAndCleanup c') := by
  obtain ⟨l', hlog', hl'⟩ : ∃ l', (closeAndCleanup c').log = c'.log ++ .close :: l' ∧
      ∀ x ∈ l', x.Idle := by
    refine ⟨_, closeAndCleanup_log c', ?_⟩
    split_ifs
    · exact idle_singleton fun _ => rfl
    · exact idle_nil
  refine .closed ?_ hl hl' (closeAndCleanup_interest ..) rfl
  rw [hlog', hlog, List.append_assoc]

/-- **What a step does to the registration** of its connection. -/
theorem Step.rewatch (h : Step c c') : Rewatch c c' := by
  cases h with
  | quiet hq =>
    cases hq with
    | read => exact .kept rfl (idle_singleton fun _ => rfl) rfl rfl
    | write => exact .kept rfl (idle_singleton fun _ => rfl) rfl rfl
    | pread => exact .kept (List.append_nil _).symm idle_nil rfl rfl
  | receive hr =>
    cases hr with
    | header => exact .kept rfl (idle_singleton fun _ => rfl) rfl rfl
    | size => exact .kept rfl (idle_singleton fun _ => rfl) rfl rfl
    | body => exact .kept rfl (idle_singleton fun _ => rfl) rfl rfl
  | begin hb =>
    cases hb with
    | put => exact .modified (List.append_assoc c.log [_] [_]) (idle_singleton fun _ => rfl) rfl rfl
    | upload => exact .kept rfl (idle_singleton fun _ => rfl) rfl rfl
  | @choose d st msg hch =>
    obtain ⟨l, hlog, hl, hint⟩ := hch.rewatch
    refine .kept (l := l ++ [.reply st msg]) ?_ ?_ hint hch.freed
    · rw [← List.append_assoc, ← hlog]
      rfl
    · exact List.forall_mem_append.mpr ⟨hl, idle_singleton fun _ => rfl⟩
  | send hs => exact hs.rewatch
  | close hk =>
    obtain ⟨l, hlog, hl, -⟩ := hk.rewatch
    exact closeAndCleanup_rewatch hlog hl
  | fault => exact .kept rfl (idle_singleton fun _ => rfl) rfl rfl

end Steps

/-! ### One event -/

namespace Watching

variable {w : Watching} {xs ys : List LoopCall} {P Q : Watching → LoopCall → Prop}

theorem after_append (w : Watching) (xs ys : List LoopCall) :
    w.after (xs ++ ys) = (w.after xs).after ys := List.foldl_append ..

theorem throughout_append :
    Throughout P w (xs ++ ys) ↔ Throughout P w xs ∧ Throughout P (w.after xs) ys := by
  induction xs generalizing w with
  | nil => exact (and_iff_right trivial).symm
  | cons x xs ih =>
    change P w x ∧ Throughout P (w.call x) (xs ++ ys) ↔
      (P w x ∧ Throughout P (w.call x) xs) ∧ Throughout P ((w.call x).after xs) ys
    rw [ih, and_assoc]

theorem Throughout.imp (h : Throughout P w xs) (himp : ∀ w x, P w x → Q w x) :
    Throughout Q w xs := by
  induction xs generalizing w with
  | nil => trivial
  | cons x xs ih => exact ⟨himp w x h.1, ih h.2⟩

/-- Calls that are allowed are to succeed. -/
theorem Throughout.results (h : Throughout Allows w xs) : ∀ r ∈ w.results xs, r = 0 := by
  induction xs generalizing w with
  | nil => exact fun r hr => absurd hr List.not_mem_nil
  | cons x xs ih => exact List.forall_mem_cons.mpr ⟨(Allows.agrees h.1).2, ih h.2⟩

theorem set_set (w : Watching) (fd : Int) (entry entry' : Descriptor) :
    (w.set fd entry).set fd entry' = w.set fd entry' := by
  funext d
  unfold set
  split_ifs <;> rfl

theorem set_eq_self {fd : Int} {entry : Descriptor} (h : w fd = entry) : w.set fd entry = w := by
  funext d
  unfold set
  split_ifs with hd
  · rw [hd, h]
  · rfl

/-- A descriptor is opened and added. -/
theorem opened_add {fd : Int} (h : w fd = .closed) (events : Events) :
    Throughout Allows w [.opened fd, .add fd events] ∧
      w.after [.opened fd, .add fd events] = w.set fd (.registered events) := by
  have hopened : w.call (.opened fd) = w.set fd .idle := if_pos h
  have hidle : w.set fd .idle fd = .idle := set_self ..
  refine ⟨⟨trivial, ?_, trivial⟩, ?_⟩
  · rw [hopened]
    exact hidle
  · change (w.call (.opened fd)).call (.add fd events) = _
    rw [hopened]
    exact (if_neg (by rw [hidle]; simp)).trans (set_set ..)

end Watching

/-- What the loop knows of the descriptor of a connection with this registration. -/
def entryOf : Option Interest → Descriptor
  | none => .closed
  | some i => .registered i.events

theorem entryOf_eq {x : Option Interest} {ev : Events} :
    entryOf x = .registered ev ↔ ∃ i, x = some i ∧ i.events = ev := by
  cases x <;> simp [entryOf]

theorem flatMap_loopCalls_idle {l : List Call} (h : ∀ x ∈ l, x.Idle) (fd : Int) :
    l.flatMap (Call.loopCalls fd) = [] := by
  rw [List.flatMap_eq_nil_iff]
  exact fun x hx => h x hx fd

/-- The calls of a connection since it was in the state `c₀` were allowed, and its registration is
what its record has. -/
structure Follows (w : Watching) (c₀ c : Ctx) : Prop where
  calls : ∃ l, c.log = c₀.log ++ l ∧ 
    Watching.Throughout Watching.Allows w (l.flatMap (Call.loopCalls c₀.client.fd)) ∧
    w.after (l.flatMap (Call.loopCalls c₀.client.fd))
      = w.set c₀.client.fd (entryOf c.interest)
  alive : c.freed = false → c.interest ≠ none
  closed : c.freed = true → c.interest = none

section Events

variable {w : Watching} {c₀ c c' : Ctx}

theorem Follows.refl (hw : w c.client.fd = entryOf c.interest)
    (hlive : c.freed = false) (hint : c.interest ≠ none) : Follows w c c where
  calls := ⟨[], (List.append_nil _).symm, trivial, (Watching.set_eq_self hw).symm⟩
  alive := fun _ => hint
  closed := fun hfreed => by cases hlive.symm.trans hfreed

theorem Follows.rewatch (h : Follows w c₀ c) (hc : c.freed = false) (hr : Rewatch c c') :
    Follows w c₀ c' := by
  obtain ⟨l, hlog, hallowed, hafter⟩ := h.calls
  have halive := h.alive hc
  obtain ⟨j, hj⟩ := Option.ne_none_iff_exists'.mp halive
  have hentry : w.set c₀.client.fd (entryOf c.interest) c₀.client.fd = .registered j.events := by
    rw [Watching.set_self, hj]
    rfl
  have hopen : w.set c₀.client.fd (entryOf c.interest) c₀.client.fd ≠ .closed := by
    rw [hentry]
    simp
  have hallows : w.set c₀.client.fd (entryOf c.interest) c₀.client.fd ≠ .closed ∧
      w.set c₀.client.fd (entryOf c.interest) c₀.client.fd ≠ .idle := by
    rw [hentry]
    simp
  cases hr with
  | @kept l' hlog' hl' hint hfreed =>
    refine ⟨⟨l ++ l', ?_, ?_, ?_⟩, fun _ => hint ▸ halive, fun hf => ?_⟩
    · rw [hlog', hlog, List.append_assoc]
    · rwa [List.flatMap_append, flatMap_loopCalls_idle hl', List.append_nil]
    · rw [List.flatMap_append, flatMap_loopCalls_idle hl', List.append_nil, hafter, hint]
    · cases hc.symm.trans (hfreed.symm.trans hf)
  -- `EPOLL_CTL_MOD` needs an entry, and a live connection has one
  | @modified l' i hlog' hl' hint hfreed =>
    have hcalls : (l ++ (l' ++ [Call.modify i])).flatMap (Call.loopCalls c₀.client.fd)
        = l.flatMap (Call.loopCalls c₀.client.fd) ++ [.modify c₀.client.fd i.events] := by
      rw [List.flatMap_append, List.flatMap_append, flatMap_loopCalls_idle hl']
      rfl
    refine ⟨⟨l ++ (l' ++ [.modify i]), ?_, ?_, ?_⟩, fun _ => by rw [hint]; simp, fun hf => ?_⟩
    · rw [hlog', hlog, List.append_assoc]
    · rw [hcalls, Watching.throughout_append, hafter]
      exact ⟨hallowed, hallows, trivial⟩
    · rw [hcalls, Watching.after_append, hafter, hint]
      exact (if_neg hopen).trans (Watching.set_set ..)
    · cases hc.symm.trans (hfreed.symm.trans hf)
  -- `event_loop_remove` first, then `close`: either leaves nothing behind
  | @closed l₁ l₂ hlog' hl₁ hl₂ hint hfreed =>
    have hcalls : (l ++ (l₁ ++ Call.close :: l₂)).flatMap (Call.loopCalls c₀.client.fd)
        = l.flatMap (Call.loopCalls c₀.client.fd) ++
          [.remove c₀.client.fd, .close c₀.client.fd] := by
      rw [List.flatMap_append, List.flatMap_append, flatMap_loopCalls_idle hl₁, List.flatMap_cons,
        flatMap_loopCalls_idle hl₂]
      rfl
    refine ⟨⟨l ++ (l₁ ++ .close :: l₂), ?_, ?_, ?_⟩, fun hf => ?_, fun _ => hint⟩
    · rw [hlog', hlog, List.append_assoc]
    · rw [hcalls, Watching.throughout_append, hafter]
      exact ⟨hallowed, hallows, trivial, trivial⟩
    · rw [hcalls, Watching.after_append, hafter, hint]
      change Watching.set (if _ then _ else _) _ _ = _
      rw [if_neg hopen, Watching.set_set, Watching.set_set]
      rfl
    · cases hf.symm.trans hfreed

theorem Follows.steps (h : Follows w c₀ c) (hsteps : Steps c c') : Follows w c₀ c' :=
  Chain.invariant (P := Follows w c₀) (fun _ _ hxy hx => hx.rewatch hxy.1 hxy.2.rewatch) hsteps h

end Events

/-! ### Runs -/

/-- The loop holds the listening socket, and what the records of the live connections say. -/
structure Registers (listenFd : Int) (s : Server) (w : Watching) : Prop where
  listen : w listenFd = .registered .onRead
  live : ∀ conn ∈ s.conns, conn.freed = false →
    w conn.client.fd = entryOf conn.interest
  others : ∀ fd, fd ≠ listenFd → ¬ s.fdOpen fd → w fd = .closed
  apart : ¬ s.fdOpen listenFd

section Runs

variable {listenFd : Int} {s : Server} {w : Watching} {a : Action} {acts : List Action}

/-- A handler has run for a live connection. -/
theorem Registers.put (h : Registers listenFd s w) (hs : Lives s) {i : ConnId} {conn : Conn}
    {c : Ctx} (hi : s.conns[i]? = some conn) (hlive : conn.freed = false)
    (hf : Follows w (s.ctx conn) c) (hfd : c.client.fd = conn.client.fd) :
    Registers listenFd (s.put i c) (w.set conn.client.fd (entryOf c.interest)) := by
  have hopen : s.fdOpen conn.client.fd := ⟨conn, List.mem_of_getElem? hi, hlive, rfl⟩
  have hne : listenFd ≠ conn.client.fd := fun heq => h.apart (heq ▸ hopen)
  -- a live connection is this one, or was there before with another descriptor
  have hcases : ∀ conn' ∈ (s.put i c).conns, conn'.freed = false →
      conn' = c.toConn ∨ conn' ∈ s.conns ∧ conn'.client.fd ≠ conn.client.fd := by
    intro conn' hmem hlive'
    obtain ⟨j, hj⟩ := List.getElem?_of_mem hmem
    by_cases hji : j = i
    · rw [hji, Server.put_conns_self c hi] at hj
      exact .inl (Option.some.inj hj).symm
    · rw [Server.put_conns_of_ne c hji] at hj
      exact .inr ⟨List.mem_of_getElem? hj,
        fun heq => hji (hs.complete.unique hs.map hj hi hlive' hlive heq)⟩
  refine ⟨?_, fun conn' hmem hlive' => ?_, fun fd hfd' hclosed => ?_, ?_⟩
  · rw [Watching.set_of_ne _ hne]
    exact h.listen
  · rcases hcases conn' hmem hlive' with rfl | ⟨hmem', hfd'⟩
    · rw [hfd, Watching.set_self]
    · rw [Watching.set_of_ne _ hfd']
      exact h.live conn' hmem' hlive'
  · by_cases heq : fd = conn.client.fd
    · rw [heq, Watching.set_self]
      have hfreed : c.freed = true := by
        by_contra hfreed
        exact hclosed ⟨c.toConn, List.mem_of_getElem? (Server.put_conns_self c hi),
          by simpa using hfreed, hfd.trans heq.symm⟩
      rw [hf.closed hfreed]
      rfl
    · rw [Watching.set_of_ne _ heq]
      refine h.others fd hfd' fun ⟨conn', hmem', hlive', hfd''⟩ => hclosed ?_
      obtain ⟨j, hj⟩ := List.getElem?_of_mem hmem'
      have hji : j ≠ i := by
        rintro rfl
        obtain rfl := Option.some.inj (hi.symm.trans hj)
        exact heq hfd''.symm
      exact ⟨conn', List.mem_of_getElem? ((Server.put_conns_of_ne c hji).trans hj), hlive', hfd''⟩
  · rintro ⟨conn', hmem, hlive', heq⟩
    rcases hcases conn' hmem hlive' with rfl | ⟨hmem', -⟩
    · exact hne (heq.symm.trans hfd)
    · exact h.apart ⟨conn', hmem', hlive', heq⟩

/-- What an event has asked of the loop. -/
theorem loopCalls_event {fd : Int} {ev : Events} {i : ConnId} {conn : Conn} {c : Ctx}
    {l : List Call} (hget : dictionaryGet s.fdToClient fd = some i)
    (hi : s.conns[i]? = some conn) (hact : s.act (.event fd ev) = s.put i c)
    (hlog : c.log = conn.log ++ l) :
    s.loopCalls (.event fd ev) = l.flatMap (Call.loopCalls fd) := by
  have hlogged : s.logged i = conn.log := by rw [Server.logged, hi]; rfl
  have hlogged' : (s.put i c).logged i = conn.log ++ l := by
    rw [Server.logged, Server.put_conns_self c hi]
    exact hlog
  unfold Server.loopCalls
  dsimp only
  rw [hget, hact]
  dsimp only
  rw [hlogged, hlogged', List.drop_left]

/-- **One action.** What it asks of the loop is allowed, and the loop goes on holding what the
records say. -/
theorem Registers.act (h : Registers listenFd s w) (hs : Lives s) (ha : a.Single)
    (hlisten : ∀ script, a ≠ .accept listenFd script) :
    Watching.Throughout Watching.Allows w (s.loopCalls a) ∧
      Registers listenFd (s.act a) (w.after (s.loopCalls a)) := by
  have hfollows : ∀ {i : ConnId} {conn : Conn}, s.conns[i]? = some conn → conn.freed = false →
      Follows w (s.ctx conn) (s.ctx conn) := fun hi hlive =>
    have hmem := List.mem_of_getElem? hi
    .refl (h.live _ hmem hlive) hlive ((hs.registered _ hmem).alive hlive)
  have ht := Server.act_turn hs.map a
  generalize hact : s.act a = s' at ht
  cases ht with
  | idle =>
    have hcalls : s.loopCalls a = [] := by
      cases a with
      | accept fd script =>
        unfold Server.loopCalls
        dsimp only
        rw [hact, if_pos rfl]
      | event fd ev =>
        unfold Server.loopCalls
        dsimp only
        rw [hact]
        split
        · rfl
        · rw [List.drop_length]
          rfl
    rw [hcalls]
    exact ⟨trivial, h⟩
  -- the kernel hands out a descriptor that no live connection has, so `add` finds no entry
  | @accept fd script rest grow hfd =>
    have hne : fd ≠ listenFd := fun heq => hlisten script (by rw [heq])
    have hcalls : s.loopCalls (.accept fd script) = [.opened fd, .add fd .onRead] := by
      unfold Server.loopCalls
      dsimp only
      rw [hact, if_neg (by simp)]
    rw [hcalls]
    obtain ⟨hallowed, hafter⟩ := Watching.opened_add (h.others fd hne hfd) .onRead
    rw [hafter]
    refine ⟨hallowed, ?_⟩
    refine ⟨?_, fun conn hmem hlive => ?_, fun d hd hclosed => ?_, ?_⟩
    · rw [Watching.set_of_ne _ hne.symm]
      exact h.listen
    · rcases List.mem_append.mp hmem with hmem | hmem
      · rw [Watching.set_of_ne _ fun heq => hfd ⟨conn, hmem, hlive, heq⟩]
        exact h.live conn hmem hlive
      · obtain rfl := List.mem_singleton.mp hmem
        exact Watching.set_self ..
    · have hdfd : d ≠ fd := by
        rintro rfl
        exact hclosed
          ⟨newConn d rest, List.mem_append_right _ (List.mem_singleton_self _), rfl, rfl⟩
      rw [Watching.set_of_ne _ hdfd]
      exact h.others d hd fun ⟨conn, hmem, hlive, heq⟩ =>
        hclosed ⟨conn, List.mem_append_left _ hmem, hlive, heq⟩
    · rintro ⟨conn, hmem, hlive, heq⟩
      rcases List.mem_append.mp hmem with hmem | hmem
      · exact h.apart ⟨conn, hmem, hlive, heq⟩
      · obtain rfl := List.mem_singleton.mp hmem
        exact hne heq
  | @handle fd ev i conn c hget hi hlive hsteps =>
    obtain ⟨conn', hi', -, rfl⟩ := hs.map.get hget
    obtain rfl := Option.some.inj (hi.symm.trans hi')
    have hf := (hfollows hi hlive).steps hsteps
    obtain ⟨l, hlog, hallowed, hafter⟩ := hf.calls
    rw [loopCalls_event hget hi hact hlog]
    refine ⟨hallowed, ?_⟩
    change Registers listenFd _ (w.after (l.flatMap (Call.loopCalls (s.ctx conn).client.fd)))
    rw [hafter]
    exact h.put hs hi hlive hf hsteps.progress.fd
  | @error fd ev i conn hev hget hi hlive =>
    obtain ⟨conn', hi', -, rfl⟩ := hs.map.get hget
    obtain rfl := Option.some.inj (hi.symm.trans hi')
    have hf := (hfollows hi hlive).rewatch hlive
      (closeAndCleanup_rewatch (List.append_nil _).symm idle_nil)
    obtain ⟨l, hlog, hallowed, hafter⟩ := hf.calls
    rw [loopCalls_event hget hi hact hlog]
    refine ⟨hallowed, ?_⟩
    change Registers listenFd _ (w.after (l.flatMap (Call.loopCalls (s.ctx conn).client.fd)))
    rw [hafter]
    exact h.put hs hi hlive hf (closeAndCleanup_progress hlive).fd
  -- `Action.Single` excludes both
  | noMemory hmem => exact absurd ha hmem
  | useAfterFree hev => exact absurd hev ha

theorem Registers.run (h : Registers listenFd s w) (hs : Lives s) (ha : ∀ a ∈ acts, a.Single)
    (hlisten : ∀ script, .accept listenFd script ∉ acts) :
    Watching.Throughout Watching.Allows w (s.loopTrace acts) ∧
      Registers listenFd (s.run acts) (w.after (s.loopTrace acts)) := by
  induction acts generalizing s w with
  | nil => exact ⟨trivial, h⟩
  | cons a acts ih =>
    rw [List.forall_mem_cons] at ha
    obtain ⟨hallowed, hact⟩ := h.act hs ha.1 fun script heq =>
      hlisten script (heq ▸ List.mem_cons_self ..)
    obtain ⟨hrest, hrun⟩ := ih hact (hs.act ha.1) ha.2 fun script hmem =>
      hlisten script (List.mem_cons_of_mem _ hmem)
    unfold Server.loopTrace
    rw [Watching.throughout_append, Watching.after_append]
    exact ⟨⟨hallowed, hrest⟩, hrun⟩

theorem Registers.boot (listenFd : Int) (k : Disk) :
    Registers listenFd (Server.boot k)
      (Watching.after .none [.opened listenFd, .add listenFd .onRead]) where
  listen := by rw [(Watching.opened_add rfl _).2, Watching.set_self]
  live := fun conn hmem => by cases hmem
  others := fun fd hfd _ => by
    rw [(Watching.opened_add rfl _).2, Watching.set_of_ne _ hfd, Watching.none]
  apart := fun ⟨conn, hmem, _⟩ => by cases hmem

/-- A descriptor is registered for a kind of event exactly if a live connection watches for it. -/
theorem Registers.watches_iff (h : Registers listenFd s w) {fd : Int}
    (hfd : fd ≠ listenFd) (i : Interest) :
    (∃ ev, w fd = .registered ev ∧ ev.has i = true) ↔ s.Watches fd i := by
  have hevents : ∀ j : Interest, j.events.has i = true ↔ j = i := by
    intro j
    cases i <;> cases j <;> decide
  constructor
  · rintro ⟨ev, hev, hi⟩
    have hopen : s.fdOpen fd := by
      by_contra hclosed
      cases (h.others fd hfd hclosed).symm.trans hev
    obtain ⟨conn, hmem, hlive, rfl⟩ := hopen
    obtain ⟨j, hj, rfl⟩ := entryOf_eq.mp ((h.live conn hmem hlive).symm.trans hev)
    obtain rfl := (hevents j).mp hi
    exact ⟨conn, hmem, hlive, rfl, hj⟩
  · rintro ⟨conn, hmem, hlive, rfl, hint⟩
    exact ⟨i.events, by rw [h.live conn hmem hlive, hint]; rfl, (hevents i).mpr rfl⟩

/-- No descriptor is registered for both kinds of event. -/
theorem Registers.one (h : Registers listenFd s w) {fd : Int} {ev : Events}
    (hev : w fd = .registered ev) : ¬ (ev.read = true ∧ ev.write = true) := by
  by_cases hfd : fd = listenFd
  · rw [hfd, h.listen] at hev
    obtain rfl := Descriptor.registered.inj hev
    exact by decide
  · have hopen : s.fdOpen fd := by
      by_contra hclosed
      cases (h.others fd hfd hclosed).symm.trans hev
    obtain ⟨conn, hmem, hlive, rfl⟩ := hopen
    obtain ⟨j, -, rfl⟩ := entryOf_eq.mp ((h.live conn hmem hlive).symm.trans hev)
    cases j <;> decide

end Runs

/-- The calls for the loop in a run of the process: `main` adds the listening socket first. -/
def bootTrace (listenFd : Int) (k : Disk) (acts : List Action) : List LoopCall :=
  [.opened listenFd, .add listenFd .onRead] ++ (Server.boot k).loopTrace acts

/-- One of the two implementations. -/
def Backend.Real (B : Backend) : Prop := B = epoll ∨ B = kqueue

theorem Backend.Real.implements {B : Backend} (hB : B.Real) : ∃ Holds, B.Implements Holds := by
  rcases hB with rfl | rfl
  · exact ⟨_, epoll_implements⟩
  · exact ⟨_, kqueue_implements⟩

/-- **The loop holds what the records say.** In every run where memory is to be had, no event asks
for READ and WRITE together and `accept` does not return the listening socket, each call for the
loop is for an open descriptor and succeeds, and behind them the kernel watches a descriptor for
READ or for WRITE exactly if it is that of a live connection whose record says so. -/
theorem loop_holds_interest {B : Backend} (hB : B.Real) (k : Disk) {listenFd : Int}
    {acts : List Action} (hacts : ∀ a ∈ acts, a.Single)
    (hlisten : ∀ script, .accept listenFd script ∉ acts) :
    (∀ r ∈ B.results B.create (bootTrace listenFd k acts), r = 0) ∧
    ∀ fd, fd ≠ listenFd → ∀ i,
      (B.Watches (B.after B.create (bootTrace listenFd k acts)) fd i ↔
        ((Server.boot k).run acts).Watches fd i) := by
  obtain ⟨Holds, himpl⟩ := hB.implements
  obtain ⟨hallowed, hregisters⟩ := (Registers.boot listenFd k).run (.boot k) hacts hlisten
  have hall : Watching.Throughout Watching.Allows .none (bootTrace listenFd k acts) :=
    Watching.throughout_append.mpr ⟨(Watching.opened_add rfl _).1, hallowed⟩
  have hagrees := hall.imp fun w x hx => hx.agrees.1
  refine ⟨himpl.results himpl.create hagrees ▸ hall.results, fun fd hfd i => ?_⟩
  have hholds := himpl.after himpl.create hagrees
  rw [bootTrace, Watching.after_append] at hholds
  exact (himpl.watches hholds).trans (hregisters.watches_iff hfd i)

/-- A connection that has a line and waits to send the reply. -/
theorem loop_holds_interest_twoCalls :
    kqueue.Watches (kqueue.after kqueue.create (bootTrace 3 bareDisk
      [.accept 5 ⟨pushBack (ascii "LIST\n") [], [.room 3], [], []⟩, .event 5 .onRead])) 5 .write := by
  refine ((loop_holds_interest (.inr rfl) bareDisk (by simp [Action.Single, Events.onRead])
    (by simp)).2 5 (by decide) .write).mpr ?_
  have h : ∃ conn ∈ ((Server.boot bareDisk).run [.accept 5 ⟨pushBack (ascii "LIST\n") [],
      [.room 3], [], []⟩, .event 5 .onRead]).conns,
      conn.freed = false ∧ conn.client.fd = 5 ∧ conn.interest = some .write := by decide +kernel
  exact h

/-! ### The loop of `main` -/

/-- The process and the kernel's part of its loop. -/
structure Polled (B : Backend) where
  server : Server
  table : B.Table

/-- What `main` makes of an element of the array: the listening socket has `accept` give these
results. -/
def fssEvent (listenFd : Int) (e : Int × Events) (results : List AcceptResult) : FssEvent :=
  if e.1 = listenFd then .listen results else .client e.1 e.2

/-- The elements that the kernel fills in, and what `accept` gives behind each. -/
abbrev Backend.Batch (B : Backend) := List (B.Ready × List AcceptResult)

namespace Polled

variable {B : Backend}

/-- The batch that `event_loop_wait` hands to `main`. -/
def batch (listenFd : Int) (es : B.Batch) : List FssEvent :=
  es.map fun e => fssEvent listenFd (B.report e.1) e.2

/-- Before the loop. -/
def boot (B : Backend) (listenFd : Int) (k : Disk) : Polled B :=
  ⟨Server.boot k, B.after B.create [.opened listenFd, .add listenFd .onRead]⟩

/-- One pass through the `while` loop. -/
def turn (listenFd : Int) (p : Polled B) (es : B.Batch) : Polled B where
  server := p.server.serveBatch (batch listenFd es)
  table := B.after p.table (p.server.loopTrace ((batch listenFd es).flatMap FssEvent.actions))

/-- A run of the process. -/
def run (listenFd : Int) (p : Polled B) (turns : List B.Batch) : Polled B :=
  turns.foldl (turn listenFd) p

/-- What the kernel may report now.  Memory is to be had, and `accept` does not return the listening
socket itself. -/
structure MayReport (listenFd : Int) (p : Polled B) (es : B.Batch) : Prop where
  reports : B.Reports p.table (es.map Prod.fst)
  accepts : ∀ e ∈ es, ∀ fd script, .conn fd script ∈ e.2 → script.mem = [] ∧ fd ≠ listenFd

/-- The process is in order, and so is the loop. -/
structure InOrder (Holds : B.Table → Watching → Prop) (listenFd : Int) (p : Polled B) : Prop where
  lives : Lives p.server
  registers : ∃ w, Holds p.table w ∧ Registers listenFd p.server w

end Polled

/-- An event that is handled in `t` finds the connection that it was reported for in `s`, as it was
then, and registered for it. -/
structure Current (s t : Server) (fd : Int) (ev : Events) (i : ConnId) (conn : Conn) : Prop where
  reported : dictionaryGet s.fdToClient fd = some i ∧ s.conns[i]? = some conn
  found : dictionaryGet t.fdToClient fd = some i ∧ t.conns[i]? = some conn
  live : conn.freed = false
  fd_eq : conn.client.fd = fd
  registered : ∀ j, ev.has j = true → conn.interest = some j

section Polls

variable {B : Backend} {Holds : B.Table → Watching → Prop} {listenFd : Int} {p : Polled B}
  {es done : B.Batch} {s : Server} {acts : List Action}

theorem acceptActions_mem {results : List AcceptResult} {a : Action}
    (h : a ∈ acceptActions results) : ∃ fd script, a = .accept fd script ∧
      .conn fd script ∈ results := by
  induction results with
  | nil => cases h
  | cons r results ih =>
    cases r with
    | conn fd script =>
      rcases List.mem_cons.mp h with rfl | h
      · exact ⟨fd, script, rfl, List.mem_cons_self ..⟩
      · obtain ⟨fd', script', heq, hmem⟩ := ih h
        exact ⟨fd', script', heq, List.mem_cons_of_mem _ hmem⟩
    | eintr =>
      obtain ⟨fd, script, heq, hmem⟩ := ih h
      exact ⟨fd, script, heq, List.mem_cons_of_mem _ hmem⟩
    | eagain => cases h
    | err => cases h

/-- What an element of a batch has the server do. -/
theorem mem_actions_fssEvent {e : Int × Events} {results : List AcceptResult} {a : Action}
    (h : a ∈ (fssEvent listenFd e results).actions) :
    (∃ fd script, a = .accept fd script ∧ .conn fd script ∈ results) ∨
      e.1 ≠ listenFd ∧ a = .event e.1 e.2 := by
  unfold fssEvent at h
  split_ifs at h with hfd
  · exact .inl (acceptActions_mem h)
  · exact .inr ⟨hfd, List.mem_singleton.mp h⟩

/-- A live connection is watched for what is reported. -/
theorem Polled.InOrder.watched (h : p.InOrder Holds listenFd) (hB : B.Implements Holds)
    (hmay : p.MayReport listenFd es) {e : B.Ready × List AcceptResult} (he : e ∈ es)
    (hfd : (B.report e.1).1 ≠ listenFd) :
    p.server.fdOpen (B.report e.1).1 ∧
      ∀ i, (B.report e.1).2.has i = true → p.server.Watches (B.report e.1).1 i := by
  obtain ⟨w, hholds, hregisters⟩ := h.registers
  obtain ⟨ev, hev, hsub⟩ := hB.reports hholds hmay.reports e.1 (List.mem_map_of_mem he)
  refine ⟨?_, fun i hi => (hregisters.watches_iff hfd i).mp ⟨ev, hev, hsub i hi⟩⟩
  by_contra hclosed
  cases (hregisters.others _ hfd hclosed).symm.trans hev

/-- A batch has no event that asks for both kinds, and accepts as it should. -/
theorem Polled.InOrder.single (h : p.InOrder Holds listenFd) (hB : B.Implements Holds)
    (hmay : p.MayReport listenFd es) {a : Action}
    (ha : a ∈ (Polled.batch listenFd es).flatMap FssEvent.actions) :
    a.Single ∧ ∀ script, a ≠ .accept listenFd script := by
  obtain ⟨x, hx, ha⟩ := List.mem_flatMap.mp ha
  obtain ⟨e, he, rfl⟩ := List.mem_map.mp hx
  rcases mem_actions_fssEvent ha with ⟨fd, script, rfl, hmem⟩ | ⟨hfd, rfl⟩
  · obtain ⟨hplenty, hne⟩ := hmay.accepts e he fd script hmem
    exact ⟨hplenty, fun script' heq => hne (Action.accept.inj heq).1⟩
  · refine ⟨fun ⟨hr, hw⟩ => ?_, fun script heq => by cases heq⟩
    have hwatched := (h.watched hB hmay he hfd).2
    cases h.lives.not_both (hwatched .read hr) (hwatched .write hw)

theorem Polled.InOrder.boot (hB : B.Implements Holds) (listenFd : Int) (k : Disk) :
    (Polled.boot B listenFd k).InOrder Holds listenFd := by
  have hopened : Watching.none listenFd = .closed := rfl
  have hagrees := (Watching.opened_add hopened .onRead).1.imp fun w x hx => hx.agrees.1
  exact ⟨.boot k, _, hB.after hB.create hagrees, Registers.boot listenFd k⟩

/-- **One pass** through the loop of `main`. -/
theorem Polled.InOrder.turn (h : p.InOrder Holds listenFd) (hB : B.Implements Holds)
    (hmay : p.MayReport listenFd es) : (p.turn listenFd es).InOrder Holds listenFd := by
  obtain ⟨w, hholds, hregisters⟩ := h.registers
  have hsingle := fun a ha => (h.single hB hmay (a := a) ha).1
  obtain ⟨hallowed, hrun⟩ := hregisters.run h.lives hsingle fun script hmem =>
    (h.single hB hmay hmem).2 script rfl
  unfold Polled.turn
  rw [serveBatch_run]
  exact ⟨(h.lives.run hsingle).1, _, hB.after hholds (hallowed.imp fun w x hx => hx.agrees.1), hrun⟩

/-- Actions that are no events of a descriptor leave its connection where it is and as it is. -/
theorem run_of_ne (hm : MapInv s) {fd : Int} {i : ConnId} {conn : Conn}
    (hget : dictionaryGet s.fdToClient fd = some i) (hi : s.conns[i]? = some conn)
    (hlive : conn.freed = false) (hacts : ∀ ev, .event fd ev ∉ acts) :
    dictionaryGet (s.run acts).fdToClient fd = some i ∧ (s.run acts).conns[i]? = some conn := by
  induction acts generalizing s with
  | nil => exact ⟨hget, hi⟩
  | cons a acts ih =>
    have ha : ∀ ev, a ≠ .event fd ev := fun ev heq => hacts ev (heq ▸ List.mem_cons_self ..)
    have hi' : (s.act a).conns[i]? = some conn := (Server.conns_act_of_ne hm hget ha).trans hi
    have hget' := hm.get_turn (Server.act_turn hm a) hget hi' hlive
    exact ih (hm.act a) hget' hi' fun ev hmem => hacts ev (List.mem_cons_of_mem _ hmem)

/-- **One batch.** Each event of a batch finds the connection that it was reported for. -/
theorem Polled.InOrder.current (h : p.InOrder Holds listenFd) (hB : B.Implements Holds)
    (hmay : p.MayReport listenFd es) {e : B.Ready × List AcceptResult} {rest : B.Batch}
    (hes : es = done ++ e :: rest) (hfd : (B.report e.1).1 ≠ listenFd) :
    ∃ i conn, Current p.server (p.server.serveBatch (Polled.batch listenFd done))
      (B.report e.1).1 (B.report e.1).2 i conn := by
  have he : e ∈ es := hes ▸ List.mem_append_right _ (List.mem_cons_self ..)
  obtain ⟨⟨conn, hmem, hlive, hconn⟩, hwatched⟩ := h.watched hB hmay he hfd
  obtain ⟨i, hi⟩ := List.getElem?_of_mem hmem
  have hget : dictionaryGet p.server.fdToClient (B.report e.1).1 = some i :=
    hconn ▸ dictionaryGet_eq_of_mem h.lives.map.nodup (h.lives.complete i conn hi hlive)
  -- the descriptor is reported once, so nothing before this event is one of its
  have hothers : ∀ ev, .event (B.report e.1).1 ev ∉
      (Polled.batch listenFd done).flatMap FssEvent.actions := by
    intro ev hmem'
    obtain ⟨x, hx, hmem'⟩ := List.mem_flatMap.mp hmem'
    obtain ⟨d, hd, rfl⟩ := List.mem_map.mp hx
    rcases mem_actions_fssEvent hmem' with ⟨fd, script, heq, -⟩ | ⟨-, heq⟩
    · cases heq
    · obtain ⟨w, hholds, hregisters⟩ := h.registers
      have honce := hB.once hholds (fun _ _ hev => hregisters.one hev) hmay.reports
      rw [List.map_map, hes, List.map_append, List.map_cons] at honce
      exact (List.nodup_append.mp honce).2.2 _ (List.mem_map_of_mem hd) _
        (List.mem_cons_self ..) (Action.event.inj heq).1.symm
  rw [serveBatch_run]
  obtain ⟨hget', hi'⟩ := run_of_ne h.lives.map hget hi hlive hothers
  refine ⟨i, conn, ⟨hget, hi⟩, ⟨hget', hi'⟩, hlive, hconn, fun j hj => ?_⟩
  obtain ⟨conn', hmem', hlive', hconn', hint⟩ := hwatched j hj
  obtain ⟨i', hi''⟩ := List.getElem?_of_mem hmem'
  obtain rfl := h.lives.complete.unique h.lives.map hi'' hi hlive' hlive (hconn'.trans hconn.symm)
  obtain rfl := Option.some.inj (hi''.symm.trans hi)
  exact hint

end Polls

/-- **The loop of `main`** over either implementation.  Where memory is to be had, at every point
of every run, also within a batch, the connections are in order, and the next event of a connection
finds the one that it was reported for, untouched since `event_loop_wait` returned and registered
for just this kind of event: no event reaches a connection that was destroyed, or another one that
was accepted under its descriptor. -/
theorem polled_run {B : Backend} (hB : B.Real) {listenFd : Int} (k : Disk)
    {turns : List B.Batch} (hturns : ∀ pre es post, turns = pre ++ es :: post →
      ((Polled.boot B listenFd k).run listenFd pre).MayReport listenFd es) :
    ∀ pre es post, turns = pre ++ es :: post → ∀ done e rest, es = done ++ e :: rest →
      Lifetimes (((Polled.boot B listenFd k).run listenFd pre).server.serveBatch
        (Polled.batch listenFd done)) ∧
      ((B.report e.1).1 ≠ listenFd → ∃ i conn,
        Current ((Polled.boot B listenFd k).run listenFd pre).server
          (((Polled.boot B listenFd k).run listenFd pre).server.serveBatch
            (Polled.batch listenFd done))
          (B.report e.1).1 (B.report e.1).2 i conn) := by
  obtain ⟨Holds, himpl⟩ := hB.implements
  intro pre es post heq done e rest hes
  have horder : ((Polled.boot B listenFd k).run listenFd pre).InOrder Holds listenFd := by
    refine Chain.run_between (Polled.boot B listenFd k) pre (fun pre' es' post' hpre h => ?_)
      (.boot himpl listenFd k)
    exact h.turn himpl (hturns pre' es' (post' ++ es :: post)
      (by rw [heq, hpre, List.append_assoc]; rfl))
  have hmay := hturns pre es post heq
  refine ⟨?_, horder.current himpl hmay hes⟩
  rw [serveBatch_run]
  refine (horder.lives.run fun a ha => (horder.single himpl hmay ?_).1).1.lifetimes
  rw [hes, Polled.batch, List.map_append, List.flatMap_append]
  exact List.mem_append_left _ ha

/-- A descriptor is reported readable. -/
def readable (fd : Int) : Int × EpollEvents := (fd, ⟨true, false, false, false, false⟩)

/-- A client connects; then it hangs up, and in the same batch another one is accepted under its
descriptor. -/
def hangUp : List epoll.Batch :=
  [[(readable 3, [.conn 5 ⟨[.eof], [], [], []⟩])],
    [(readable 5, []), (readable 3, [.conn 5 ⟨[], [], [], []⟩])]]

theorem hangUp_mayReport : ∀ pre es post, hangUp = pre ++ es :: post →
    ((Polled.boot epoll 3 bareDisk).run 3 pre).MayReport 3 es := by
  have hlisten : OrderedMap.get
      (((Polled.boot epoll 3 bareDisk).run 3 []).table : Kernel EpollTable).table 3
        = some (Epoll.toEpollEvents .onRead) := by decide +kernel
  have hlisten' : OrderedMap.get
      (((Polled.boot epoll 3 bareDisk).run 3 (hangUp.take 1)).table : Kernel EpollTable).table 3
        = some (Epoll.toEpollEvents .onRead) := by decide +kernel
  have hclient : OrderedMap.get
      (((Polled.boot epoll 3 bareDisk).run 3 (hangUp.take 1)).table : Kernel EpollTable).table 5
        = some (Epoll.toEpollEvents .onRead) := by decide +kernel
  have hreadable : ∀ (fd : Int) (i : Interest), (readable fd).2.has i = true →
      (Epoll.toEpollEvents .onRead).has i = true := fun fd i hi => by cases i <;> exact hi
  intro pre es post heq
  match pre, heq with
  | [], heq =>
    obtain rfl := (List.cons.inj heq).1
    refine ⟨⟨by decide, fun e he => ?_⟩, fun e he fd script hmem => ?_⟩
    · obtain rfl := List.mem_singleton.mp he
      exact ⟨_, hlisten, hreadable 3⟩
    · obtain rfl := List.mem_singleton.mp he
      obtain ⟨rfl, rfl⟩ : fd = 5 ∧ script = ⟨[.eof], [], [], []⟩ := by simpa using hmem
      exact ⟨rfl, by decide⟩
  | [_], heq =>
    obtain ⟨rfl, hrest⟩ := List.cons.inj heq
    obtain rfl := (List.cons.inj hrest).1
    refine ⟨⟨by decide, fun e he => ?_⟩, fun e he fd script hmem => ?_⟩
    · rcases List.mem_cons.mp he with rfl | he
      · exact ⟨_, hclient, hreadable 5⟩
      · obtain rfl := List.mem_singleton.mp he
        exact ⟨_, hlisten', hreadable 3⟩
    · rcases List.mem_cons.mp he with rfl | he
      · cases hmem
      · obtain rfl := List.mem_singleton.mp he
        obtain ⟨rfl, rfl⟩ : fd = 5 ∧ script = ⟨[], [], [], []⟩ := by simpa using hmem
        exact ⟨rfl, by decide⟩
  | _ :: _ :: _, heq => exact absurd (congrArg List.length heq) (by simp [hangUp])

theorem polled_run_hangUp : ∃ i conn,
    Current ((Polled.boot epoll 3 bareDisk).run 3 (hangUp.take 1)).server
      ((Polled.boot epoll 3 bareDisk).run 3 (hangUp.take 1)).server 5 .onRead i conn :=
  (polled_run (.inl rfl) bareDisk hangUp_mayReport (hangUp.take 1) _ [] rfl [] (readable 5, [])
    [(readable 3, [.conn 5 ⟨[], [], [], []⟩])] rfl).2 (by decide)

end FileServer
