/-
  The reads of an edge-triggered descriptor.

  The epoll backend reports a descriptor once for what has arrived.  A handler that
  returns while the server still waits for input must have read up to `EAGAIN`, or
  have registered the descriptor again behind its last read.  Two exits do neither:
  `parse_header_and_transition` returns where a NUL precedes the newline on the
  request line, so that `strchr` does not find it, and `accept_connections` leaves
  its loop at any error.
-/
import FileServer.Equiv.Event
import FileServer.Equiv.Reading

namespace FileServer

/-! ### Connections -/

/-- The last call of an event for its descriptor is a read that found nothing, or a change of the
registration. -/
def Drained (c c' : Ctx) : Prop :=
  EndsWith c.log (.read .eagain) c'.log ∨ EndsWith c.log (.modify .read) c'.log

/-- A READ event that leaves the server waiting for input leaves none behind. -/
def LeavesNothing (c c' : Ctx) : Prop :=
  c'.fault = false → c'.freed = false → c'.client.state.Receiving → Drained c c'

/-- The header loop is about to read a newline that has a NUL before it. -/
def Stalls (c : Ctx) : Prop :=
  c.client.state = .recvHeader ∧
    newline ∈ (ready c.script.rx).take (maxHeaderLen - 1 - c.client.headerLen) ∧
    0 ∈ c.client.headerBuf ++ beforeChar newline (ready c.script.rx)

instance (c : Ctx) : Decidable (Stalls c) := inferInstanceAs (Decidable (_ ∧ _ ∧ _))

section Events

variable {c c' : Ctx}

theorem Answered.not_receiving (h : Answered c c') (hlive : c'.freed = false) :
    ¬ c'.client.state.Receiving := fun hs => hs.not_sending (h.sending hlive)

theorem Served.leavesNothing (h : Served c c') : LeavesNothing c c' := by
  intro hfault hlive hs
  cases h with
  | answered h => exact absurd hs (h.not_receiving hlive)
  | rearmed _ _ _ hlog => exact .inr hlog
  | fault _ _ _ hf => cases hfault.symm.trans hf

/-- Past the header, every way out leaves nothing. -/
theorem Exit.leavesNothing (h : Exit c c') (hs : c'.client.state ≠ .recvHeader) :
    LeavesNothing c c' := by
  intro hfault hlive hrecv
  cases h with
  | answered h => exact absurd hrecv (h.not_receiving hlive)
  | drained _ _ _ hlog => exact .inl hlog
  | rearmed _ _ _ hlog => exact .inr hlog
  | stalled _ hs' => exact absurd hs' hs
  | fault _ hs' => exact absurd hs' hs

theorem EndsWith.last {l₀ l : List Call} {x y : Call} (h : EndsWith l₀ x l) (h' : EndsWith l₀ y l) :
    x = y := by
  obtain ⟨l₁, -, rfl⟩ := h
  obtain ⟨l₂, -, heq⟩ := h'
  exact (List.append_inj' heq rfl).2 |> List.singleton_inj.mp

/-- Where the loop ended for lack of room or of input, no newline was at hand. -/
theorem Scanned.not_stalls {t : Ctx} {got : List Byte} (h : Scanned c t got)
    (hend : maxHeaderLen - 1 - c.client.headerLen ≤ got.length ∨
      FileServer.ready t.script.rx = []) :
    ¬ Stalls c :=
  fun hs => h.not_lineReady hend ⟨hs.1, hs.2.1⟩

theorem HeaderEnd.leavesNothing_iff (h : HeaderEnd c c') (hok : ConnOk c) (hf : c.fault = false)
    (hs : c.client.state = .recvHeader) : LeavesNothing c c' ↔ ¬ Stalls c := by
  have hroom : c.client.headerLen ≤ maxHeaderLen - 1 := hok.request.len ▸ hok.request.room
  have hnone := (hok.request.header hf hs).1
  cases h with
  | @line t got rest h hlen hr hready =>
    have hroom : got.length < maxHeaderLen - 1 - c.client.headerLen := by
      have := h.len
      omega
    obtain ⟨htake, hbefore⟩ := first_newline (h.ready.trans (by rw [hready])) hroom h.line
    have hstalls : Stalls c ↔ 0 ∈ t.client.headerBuf := by
      unfold Stalls
      rw [hbefore, ← h.buf]
      exact ⟨fun h => h.2.2, fun h0 => ⟨hs, htake, h0⟩⟩
    have hnone' : requestOf t.client.headerBuf = none :=
      h.buf ▸ requestOf_append_none hnone h.line
    have hbuf : (storeHeader t newline).client.headerBuf = t.client.headerBuf ++ [newline] := rfl
    rw [parseHeaderAndTransition_eq, hstalls, ← requestOf_newline_eq_none hnone', hbuf]
    cases hq : requestOf (t.client.headerBuf ++ [newline]) with
    | none =>
      refine iff_of_false (fun hleaves => ?_) (fun h => h rfl)
      have hlast : EndsWith c.log (.read (.bytes [newline])) (storeHeader t newline).log :=
        ⟨t.log, h.log, by change (t.sysRead 1).2.log = _; rw [Ctx.sysRead_log, hr]⟩
      have hfault : (storeHeader t newline).fault = false := by
        change t.toGlobals.fault = false
        rw [h.globals]
        exact hf
      rcases hleaves hfault h.freed (.inl h.state) with hd | hd
      · cases hlast.last hd
      · cases hlast.last hd
    | some q =>
      exact iff_of_true ((h.toAhead.storeHeader newline).serveRequest h.state q).leavesNothing
        (fun hq => by cases hq)
  | tooLong h hlen =>
    refine iff_of_true (fun _ hlive hrecv => ?_) (h.not_stalls (.inl ?_))
    · exact absurd hrecv ((h.toAhead.prepareAndSendResponse _ _).not_receiving hlive)
    · have := h.len
      omega
  | drained h hlen hr hready =>
    exact iff_of_true (fun _ _ _ => .inl (drained_log h.toAhead hr)) (h.not_stalls (.inr hready))
  | closed h hlen hready =>
    exact iff_of_true (fun _ hlive => by cases hlive) (h.not_stalls (.inr hready))

/-- A READ event leaves nothing behind exactly if it does not come to a newline that has a NUL
before it. -/
theorem handleReadEvent_leavesNothing_iff (hok : ConnOk c) (hc : c.freed = false)
    (hf : c.fault = false) : LeavesNothing c (handleReadEvent c) ↔ ¬ Stalls c := by
  -- only the header loop can stop with bytes left; the other states are settled by their exits
  by_cases hs : c.client.state = .recvHeader
  · have heq : handleReadEvent c = readHeader c := by
      unfold handleReadEvent
      rw [hs]
    rw [heq]
    exact (readHeader_end hc hs).leavesNothing_iff hok hf hs
  refine iff_of_true ?_ (fun hstalls => hs hstalls.1)
  have hsettled := ((handleReadEvent_steps hc hf).progress.settled (.inr hs)).1
  rcases c.client.state.cases with hrecv | hsend | hdone
  · intro hfault hlive
    have hle : c.client.state = .recvPutData →
        c.client.bytesTransferred ≤ c.client.expectedSize :=
      fun hd => (hok.upload.data hd).2.2.2.1
    have hs' : (handleReadEvent c).client.state ≠ .recvHeader :=
      hsettled.resolve_left (by simp [hlive])
    exact (handleReadEvent_exit hc hrecv hle).leavesNothing hs' hfault hlive
  · rw [handleReadEvent_of_sending hsend]
    exact fun _ _ hrecv => absurd hsend hrecv.not_sending
  · cases hc.symm.trans (hok.done hdone)

end Events

/-! ### The listening socket -/

/-- The accept loop ends with `EAGAIN` exactly if no other error comes before it. -/
theorem acceptConnections_eagain_iff (s : Server) (results : List AcceptResult) :
    (s.acceptConnections results).2 = .eagain ↔
      ∀ pre post, results = pre ++ .err :: post → .eagain ∈ pre := by
  induction results generalizing s with
  | nil => exact iff_of_true rfl fun pre post h => by simp at h
  | cons r results ih =>
    -- `r` does not end the loop
    have hgo : ∀ s', r ≠ .err → r ≠ .eagain →
        (s.acceptConnections (r :: results)).2 = (Server.acceptConnections s' results).2 →
        ((s.acceptConnections (r :: results)).2 = .eagain ↔
          ∀ pre post, r :: results = pre ++ .err :: post → .eagain ∈ pre) := by
      intro s' herr heagain heq
      rw [heq, ih s']
      constructor
      · intro h pre post hsplit
        cases pre with
        | nil => exact absurd (List.cons.inj hsplit).1 herr
        | cons x pre => exact List.mem_cons_of_mem _ (h pre post (List.cons.inj hsplit).2)
      · intro h pre post hsplit
        have hmem := h (r :: pre) post (by rw [hsplit, List.cons_append])
        exact (List.mem_cons.mp hmem).resolve_left fun h => heagain h.symm
    cases r with
    | conn fd script => exact hgo _ (fun h => by cases h) (fun h => by cases h) rfl
    | eintr => exact hgo _ (fun h => by cases h) (fun h => by cases h) rfl
    | eagain =>
      refine iff_of_true rfl fun pre post hsplit => ?_
      cases pre with
      | nil => cases (List.cons.inj hsplit).1
      | cons x pre => exact (List.cons.inj hsplit).1 ▸ List.mem_cons_self ..
    | err =>
      refine iff_of_false (fun h => by cases h) fun h => ?_
      exact absurd (h [] results rfl) List.not_mem_nil

/-- **Edge-triggered discipline.** A READ event of a connection leaves nothing unread behind it
exactly if the header loop does not come to a newline that has a NUL before it; `accept_connections`
leaves no connection pending exactly if `accept` meets no error before `EAGAIN`. -/
theorem read_discipline_iff {s : Server} (hs : Reachable s) (hfault : s.fault = false) :
    (∀ conn ∈ s.conns, conn.freed = false →
      (LeavesNothing (s.ctx conn) (handleReadEvent (s.ctx conn)) ↔ ¬ Stalls (s.ctx conn))) ∧
    ∀ results, (s.acceptConnections results).2 = .eagain ↔
      ∀ pre post, results = pre ++ .err :: post → .eagain ∈ pre :=
  ⟨fun conn hmem hlive =>
    handleReadEvent_leavesNothing_iff (connOk_stable.reachable hs conn hmem) hlive hfault,
    acceptConnections_eagain_iff s⟩

/-- Half of a request line is read to its end. -/
theorem read_discipline_halfLine : ∃ conn ∈ (arrived (ascii "LI") []).conns[0]?,
    (handleReadEvent ((arrived (ascii "LI") []).ctx conn)).client.state = .recvHeader ∧
      Drained ((arrived (ascii "LI") []).ctx conn)
        (handleReadEvent ((arrived (ascii "LI") []).ctx conn)) := by
  obtain ⟨conn, hi, hlive, hno, hfault, hlive', hs⟩ : ∃ conn ∈ (arrived (ascii "LI") []).conns[0]?,
      conn.freed = false ∧ ¬ Stalls ((arrived (ascii "LI") []).ctx conn) ∧
      (handleReadEvent ((arrived (ascii "LI") []).ctx conn)).fault = false ∧
      (handleReadEvent ((arrived (ascii "LI") []).ctx conn)).freed = false ∧
      (handleReadEvent ((arrived (ascii "LI") []).ctx conn)).client.state = .recvHeader := by
    decide +kernel
  have h := ((read_discipline_iff (arrived_reachable _ _) (by decide +kernel)).1 conn
    (List.mem_of_getElem? hi) hlive).mpr hno
  exact ⟨conn, hi, hs, h hfault hlive' (.inl hs)⟩

/-- A NUL and a newline arrive, and a request line behind them. -/
theorem not_read_discipline_nulLine : ¬ ∀ s, Reachable s → s.fault = false →
    (∀ conn ∈ s.conns, conn.freed = false →
      LeavesNothing (s.ctx conn) (handleReadEvent (s.ctx conn))) ∧
    ∀ results, (s.acceptConnections results).2 = .eagain := by
  intro h
  obtain ⟨conn, hi, hlive, hstalls⟩ :
      ∃ conn ∈ (arrived (0 :: newline :: ascii "LIST\n") []).conns[0]?, conn.freed = false ∧
        Stalls ((arrived (0 :: newline :: ascii "LIST\n") []).ctx conn) := by decide +kernel
  have hmem := List.mem_of_getElem? hi
  have hreach := arrived_reachable (0 :: newline :: ascii "LIST\n") []
  have hfault : (arrived (0 :: newline :: ascii "LIST\n") []).fault = false := by decide +kernel
  exact (handleReadEvent_leavesNothing_iff (connOk_stable.reachable hreach conn hmem) hlive
    hfault).mp ((h _ hreach hfault).1 conn hmem hlive) hstalls

end FileServer
