/-
  How a request comes to its end.

  While a connection receives its request, every READ event that its handler gets takes
  something off what the client still has to deliver (`serveEvent_consuming`), however
  the stream is cut and whatever it holds, a NUL in the line included.  So a client that
  has closed its side is not waited for: when there were more READ events than there
  were pieces, the connection is closed or has a reply to send (`request_completed`).
-/
import FileServer.Completion
import FileServer.Exhaustion

namespace FileServer

/-! ### The input -/

/-- What a read finds where it does not find the end. -/
def ReadResult.Fed (r : ReadResult) : Prop :=
  r = .eagain ∨ r = .eintr ∨ ∃ bs, bs ≠ [] ∧ r = .bytes bs

section Input

variable {c c' : Ctx}

theorem eof_mem_pushBack {rx : List RxItem} (h : .eof ∈ rx) (bs : List Byte) :
    .eof ∈ pushBack bs rx := by
  cases bs with
  | nil => exact h
  | cons b bs => exact List.mem_cons_of_mem _ h

/-- A read uses up an item or a byte, and the end of the stream stays. -/
theorem ReadResult.Fed.rxWeight_lt {s : Script} {n : Nat} (heof : .eof ∈ s.rx)
    (h : (s.read n).1.Fed) :
    .eof ∈ (s.read n).2.rx ∧ rxWeight (s.read n).2.rx < rxWeight s.rx := by
  rcases h with h | h | ⟨bs, hne, h⟩
  · unfold Script.read at h ⊢
    cases hrx : s.rx with
    | nil => rw [hrx] at heof; cases heof
    | cons x rx =>
      rw [hrx] at heof
      cases x with
      | eagain => exact ⟨by simpa using heof, Nat.lt_succ_self _⟩
      | _ => simp [hrx] at h
  · refine ⟨?_, rxWeight_read_eintr h⟩
    unfold Script.read at h ⊢
    cases hrx : s.rx with
    | nil => simp [hrx] at h
    | cons x rx =>
      rw [hrx] at heof
      cases x with
      | eintr => simpa using heof
      | _ => simp [hrx] at h
  · refine ⟨?_, rxWeight_read_bytes h hne⟩
    unfold Script.read at h ⊢
    cases hrx : s.rx with
    | nil => simp [hrx] at h
    | cons x rx =>
      rw [hrx] at heof
      cases x with
      | data b bs =>
        refine eof_mem_pushBack ?_ _
        simpa using heof
      | _ => simp [hrx] at h

/-- What a step that leaves the connection receiving does with the input. -/
inductive Heard (c c' : Ctx) : Prop
  | silent (hclient : c'.client = c.client) (hlog : c'.log = c.log)
      (hrx : c'.script.rx = c.script.rx)
  /-- The size field is complete, and the file is opened. -/
  | opened (hs : c.client.state = .recvPutSize) (hlen : ¬ c.client.bytesTransferred < sizeLen)
      (hrx : c'.script.rx = c.script.rx)
  | read (n : Nat) (h : (c.script.read n).1.Fed) (hrx : c'.script.rx = (c.script.read n).2.rx)

theorem LineRead.fed {q : Request} (h : LineRead c q) : (c.script.read 1).1.Fed := by
  obtain ⟨bs, hr⟩ := h.read
  exact .inr (.inr ⟨_, List.cons_ne_nil _ _, hr⟩)

theorem Step.heard (h : Step c c') (hc' : c'.freed = false) (hs : c'.client.state.Receiving) :
    Heard c c' := by
  -- a reply that starts leaves the receiving states, so no arm that writes is left
  have hsend : ¬ c'.client.state.Sending := hs.not_sending
  cases h with
  | quiet hq =>
    cases hq with
    | @read n hn hr => exact .read n (hr.elim .inl fun h => .inr (.inl h)) rfl
    | write _ hs' => exact absurd hs' hsend
    | pread => exact .silent rfl rfl (Script.file_rx _)
  | receive hr =>
    cases hr with
    | header _ _ _ hr => exact .read 1 (.inr (.inr ⟨_, List.cons_ne_nil _ _, hr⟩)) rfl
    | size _ _ hr hne => exact .read _ (.inr (.inr ⟨_, hne, hr⟩)) rfl
    | body _ _ hr hne => exact .read _ (.inr (.inr ⟨_, hne, hr⟩)) (Script.file_rx _)
  | begin hb =>
    cases hb with
    | put hl => exact .read 1 hl.fed rfl
    | upload hs' hlen => exact .opened hs' hlen (Script.file_rx _)
  | choose => exact absurd (fillResponse_sending _ _ _) hsend
  | send hs' => exact absurd hs'.sending hsend
  | close => cases hc'
  | fault hl => exact .read 1 hl.fed rfl

/-! ### One event -/

/-- What is left for a connection to receive, in bytes and interruptions. -/
def Conn.backlog (c : Conn) : Nat := rxWeight c.script.rx

/-- Some steps into an event, the connection still receives: the backlog is smaller, or nothing has
happened yet. -/
structure Consuming (c x : Ctx) : Prop where
  eof : .eof ∈ x.script.rx
  less : x.backlog < c.backlog ∨
    x.client = c.client ∧ x.log = c.log ∧ x.backlog = c.backlog

/-- **One step.** -/
theorem Consuming.step {x y : Ctx} (h : Consuming c x) (hroom : Incomplete c.client)
    (hheard : Heard x y) : Consuming c y := by
  cases hheard with
  | silent hclient hlog hrx =>
    have heq : y.backlog = x.backlog := congrArg rxWeight hrx
    refine ⟨hrx ▸ h.eof, ?_⟩
    rcases h.less with hlt | ⟨hclient', hlog', heq'⟩
    · exact .inl (heq ▸ hlt)
    · exact .inr ⟨hclient.trans hclient', hlog.trans hlog', heq.trans heq'⟩
  | opened hs hlen hrx =>
    have heq : y.backlog = x.backlog := congrArg rxWeight hrx
    refine ⟨hrx ▸ h.eof, ?_⟩
    rcases h.less with hlt | ⟨hclient, -, -⟩
    · exact .inl (heq ▸ hlt)
    · -- the event did not start with a size field that is complete
      rw [hclient] at hs hlen
      exact absurd (hroom.size hs) hlen
  | read n hfed hrx =>
    obtain ⟨heof, hlt⟩ := hfed.rxWeight_lt h.eof
    refine ⟨hrx ▸ heof, .inl ?_⟩
    have hle : x.backlog ≤ c.backlog := by
      rcases h.less with hlt | ⟨-, -, heq⟩
      · exact Nat.le_of_lt hlt
      · exact Nat.le_of_eq heq
    calc y.backlog = rxWeight (x.script.read n).2.rx := congrArg rxWeight hrx
      _ < x.backlog := hlt
      _ ≤ c.backlog := hle

/-- A connection that receives at the end of some steps has received all along. -/
theorem Steps.receiving (h : Steps c c') (hc' : c'.freed = false)
    (hs : c'.client.state.Receiving) : c.client.state.Receiving := by
  have hrun := Chain.invariant
    (P := fun x : Ctx => x.freed = false → x.client.state.Receiving →
      c.client.state.Receiving)
    (fun _ _ hxy hx hy hsy => hx hxy.1 (hxy.2.of_receiving hy hsy).1) h fun _ hsc => hsc
  exact hrun hc' hs

theorem Steps.consuming (h : Steps c c') (heof : .eof ∈ c.script.rx) (hroom : Incomplete c.client)
    (hc' : c'.freed = false) (hs : c'.client.state.Receiving) : Consuming c c' := by
  have hrun := Chain.invariant
    (P := fun x : Ctx => x.freed = false → x.client.state.Receiving → Consuming c x)
    (fun _ _ hxy hx hy hsy => (hx hxy.1 (hxy.2.of_receiving hy hsy).1).step hroom
      (hxy.2.heard hy hsy)) h
    fun _ _ => ⟨heof, .inr ⟨rfl, rfl, rfl⟩⟩
  exact hrun hc' hs

theorem EndsWith.ne {l₀ l : List Call} {x : Call} (h : EndsWith l₀ x l) : l ≠ l₀ := by
  obtain ⟨l₁, hpre, rfl⟩ := h
  intro heq
  have hle := hpre.length_le
  have hlen := congrArg List.length heq
  rw [List.length_append, List.length_singleton] at hlen
  omega

/-- A READ event that leaves the connection receiving has made a call. -/
theorem Exit.log_ne (h : Exit c c') (hc' : c'.freed = false) (hs : c'.client.state.Receiving)
    (hf : c'.fault = false) : c'.log ≠ c.log := by
  cases h with
  | answered h => exact absurd (h.sending hc') hs.not_sending
  | drained _ _ _ hlog => exact hlog.ne
  | rearmed _ _ _ hlog => exact hlog.ne
  | stalled _ _ _ hlog => exact hlog.ne
  | fault _ _ _ hfault => cases hf.symm.trans hfault

/-- An event that leaves the connection open, in a process that goes on, is a chain of steps. -/
theorem serveEvent_steps (hc : c.freed = false) (hf : c.fault = false) {ev : Events}
    (hc' : (serveEvent c ev).freed = false) (hf' : (serveEvent c ev).fault = false) :
    Steps c (serveEvent c ev) := by
  rcases serveEvent_cases hc hf ev with heq | ⟨d, hsteps, heq | heq⟩
  · rw [heq, closeAndCleanup_freed] at hc'
    cases hc'
  · rw [heq]
    exact hsteps
  · rw [heq] at hf'
    cases hf'

/-- **One event.** -/
theorem serveEvent_consuming (hc : c.freed = false) (hf : c.fault = false) (hok : AtRest c)
    (heof : .eof ∈ c.script.rx) {ev : Events} (hsingle : ¬ (ev.read = true ∧ ev.write = true))
    (hc' : (serveEvent c ev).freed = false) (hf' : (serveEvent c ev).fault = false)
    (hs : (serveEvent c ev).client.state.Receiving) :
    .eof ∈ (serveEvent c ev).script.rx ∧
      (serveEvent c ev).backlog + ev.read.toNat ≤ c.backlog := by
  have hroom := hok.incomplete hc
  have hsteps := serveEvent_steps hc hf hc' hf'
  have harr := hsteps.consuming heof hroom hc' hs
  refine ⟨harr.eof, ?_⟩
  cases hread : ev.read with
  | false =>
    rcases harr.less with hlt | ⟨-, -, heq⟩
    · exact Nat.le_of_lt hlt
    · exact Nat.le_of_eq heq
  | true =>
    have hwrite : ev.write = false := by
      cases hw : ev.write with
      | false => rfl
      | true => exact absurd ⟨hread, hw⟩ hsingle
    have herr : ev.error = false := by
      cases he : ev.error with
      | false => rfl
      | true =>
        unfold serveEvent at hc'
        rw [if_pos he, closeAndCleanup_freed] at hc'
        cases hc'
    have heq : serveEvent c ev = handleReadEvent c := by
      unfold serveEvent
      rw [if_neg (by rw [herr]; exact Bool.false_ne_true), if_pos hread]
      exact if_neg (by rw [hwrite]; exact Bool.false_ne_true)
    -- nothing taken would mean no call made, and a READ event makes one
    have hexit := handleReadEvent_exit hc (hsteps.receiving hc' hs) fun hd =>
      Nat.le_of_lt (hroom.data hd)
    rw [heq] at hc' hf' hs harr ⊢
    rcases harr.less with hlt | ⟨-, hlog, -⟩
    · exact hlt
    · exact absurd hlog (hexit.log_ne hc' hs hf')

end Input

/-! ### Runs -/

/-- The action reports input for `fd`. -/
def Action.brings (fd : Int) : Action → Bool
  | .accept _ _ => false
  | .event fd' ev => fd' == fd && ev.read

section Runs

variable {k : Disk} {pre acts : List Action} {i : ConnId} {c₀ conn : Conn}

/-- **A run.** Each report of input takes something off the backlog. -/
theorem backlog_run (hsingle : ∀ a ∈ pre ++ acts, a.Single)
    (h₀ : ((Server.boot k).run pre).conns[i]? = some c₀) (heof : .eof ∈ c₀.script.rx)
    (hi : ((Server.boot k).run (pre ++ acts)).conns[i]? = some conn) (hlive : conn.freed = false)
    (hs : conn.client.state.Receiving) :
    .eof ∈ conn.script.rx ∧
      conn.backlog + acts.countP (Action.brings c₀.client.fd) ≤ c₀.backlog := by
  induction acts using List.reverseRecOn generalizing conn with
  | nil =>
    rw [List.append_nil] at hi
    obtain rfl := Option.some.inj (h₀.symm.trans hi)
    exact ⟨heof, Nat.le_refl _⟩
  | append_singleton acts a ih =>
    rw [← List.append_assoc] at hsingle hi
    have hsingle' : ∀ b ∈ pre ++ acts, b.Single :=
      fun b hb => hsingle b (List.mem_append_left _ hb)
    obtain ⟨conn₁, hi₁, hp₀⟩ := Server.conn_mono (.boot k) h₀ acts
    obtain ⟨conn₂, hi₂, hp⟩ := Server.conn_mono (.boot k) hi₁ [a]
    obtain rfl := Option.some.inj (hi.symm.trans hi₂)
    have hlives := ((Lives.boot k).run hsingle').1
    have hfault' := ((Lives.boot k).run hsingle).1.fault
    have hrest : AtRest (((Server.boot k).run (pre ++ acts)).ctx conn₁) :=
      atRest_resting.run (.boot k) (fun conn hmem => by cases hmem)
        (fun _ _ _ _ _ _ _ _ _ _ _ => trivial) conn₁ (List.mem_of_getElem? hi₁)
    have hlive₁ : conn₁.freed = false := by
      cases hf : conn₁.freed with
      | false => rfl
      | true =>
        rw [hp.freed hf, hf] at hlive
        cases hlive
    rw [Server.run_concat] at hi hfault'
    rw [List.countP_append, List.countP_singleton, ← hp₀.fd]
    rw [← hp₀.fd] at ih
    generalize (Server.boot k).run (pre ++ acts) = s at *
    have hget := hlives.get_live hi₁ hlive₁
    by_cases hown : ∃ ev, a = .event conn₁.client.fd ev
    · obtain ⟨ev, rfl⟩ := hown
      rw [Server.act_event hlives.fault hget hi₁] at hi hfault'
      rw [Server.put_conns_self _ hi₁] at hi
      obtain rfl := Option.some.inj hi
      have hev : ¬ (ev.read = true ∧ ev.write = true) :=
        hsingle _ (List.mem_append_right _ (List.mem_singleton_self _))
      have hsteps := serveEvent_steps (c := s.ctx conn₁) hlive₁ hlives.fault hlive hfault'
      obtain ⟨heof₁, hle₁⟩ := ih hsingle' hi₁ hlive₁ (hsteps.receiving hlive hs)
      obtain ⟨heof', hle⟩ := serveEvent_consuming (c := s.ctx conn₁) hlive₁ hlives.fault hrest
        heof₁ hev hlive hfault' hs
      refine ⟨heof', ?_⟩
      have hcount : (if Action.brings conn₁.client.fd (.event conn₁.client.fd ev) = true then 1
          else 0) = ev.read.toNat := by
        rw [Action.brings, beq_self_eq_true, Bool.true_and]
        cases ev.read <;> rfl
      have hle' : (serveEvent (s.ctx conn₁) ev).toConn.backlog + ev.read.toNat
          ≤ conn₁.backlog := hle
      rw [hcount]
      omega
    · -- the action is none of this connection
      have hne : ∀ ev, a ≠ .event conn₁.client.fd ev := fun ev ha => hown ⟨ev, ha⟩
      have hbrings : Action.brings conn₁.client.fd a = false := by
        cases a with
        | accept => rfl
        | event fd ev =>
          have hfd : fd ≠ conn₁.client.fd := fun h => hne ev (h ▸ rfl)
          simp [Action.brings, hfd]
      rw [Server.conns_act_of_ne hlives.map hget hne, hi₁] at hi
      obtain rfl := Option.some.inj hi
      rw [hbrings]
      exact ih hsingle' hi₁ hlive hs

/-- **Every request comes to its end**, in a run where memory is to be had and no event asks for
READ and WRITE together.  A connection whose client has closed its side is closed or has a reply to
send when input was reported more often than there are bytes and interruptions left, however they
are cut and whatever they are; and whatever the other connections do in between. -/
theorem request_completed (k : Disk) (pre acts : List Action)
    (hsingle : ∀ a ∈ pre ++ acts, a.Single) (i : ConnId) {conn₀ conn : Conn}
    (h₀ : ((Server.boot k).run pre).conns[i]? = some conn₀) (heof : .eof ∈ conn₀.script.rx)
    (hi : ((Server.boot k).run (pre ++ acts)).conns[i]? = some conn)
    (hcount : conn₀.backlog < acts.countP (Action.brings conn₀.client.fd)) :
    conn.freed = true ∨ conn.client.state.Sending := by
  -- a connection in `STATE_DONE` has been closed by the event that got it there
  cases hlive : conn.freed with
  | true => exact .inl rfl
  | false =>
    rcases conn.client.state.cases with hs | hs | hs
    · obtain ⟨-, hle⟩ := backlog_run hsingle h₀ heof hi hlive hs
      omega
    · exact .inr hs
    · obtain ⟨hok, -, -⟩ := connOk_memOk k (fun a ha => (hsingle a ha).plenty) hi
      cases hlive.symm.trans (hok.done hs)

/-- A client announces a file and closes its side in the middle of the size. -/
def endedUpload : List Action :=
  [.accept 5 ⟨pushBack (ascii "PUT x\n") [.data 2 [0, 0, 0], .eof], [], [], []⟩]

theorem request_completed_endedUpload : ∃ conn,
    ((Server.boot bareDisk).run
      (endedUpload ++ List.replicate 11 (.event 5 .onRead))).conns[0]? = some conn ∧
      (conn.freed = true ∨ conn.client.state.Sending) := by
  obtain ⟨conn₀, h₀, heof, hbacklog, hfd⟩ :
      ∃ conn ∈ ((Server.boot bareDisk).run endedUpload).conns[0]?,
        .eof ∈ conn.script.rx ∧ conn.backlog = 10 ∧ conn.client.fd = 5 := by decide +kernel
  obtain ⟨conn, hi, -⟩ :
      ∃ conn ∈ ((Server.boot bareDisk).run
        (endedUpload ++ List.replicate 11 (.event 5 .onRead))).conns[0]?, conn.sent = [] := by
    decide +kernel
  have hsingle : ∀ a ∈ endedUpload ++ List.replicate 11 (.event 5 .onRead), a.Single := by
    simp [endedUpload, Action.Single, Events.onRead]
  refine ⟨conn, hi, request_completed bareDisk endedUpload _ hsingle 0 h₀ heof hi ?_⟩
  rw [hbacklog, hfd]
  decide

end Runs

end FileServer
