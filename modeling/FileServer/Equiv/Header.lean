/-
  The header loop by what it reads.

  `ready` is what one event can read of a script.  The loop stores a part of it
  without a newline (`Scanned`) and stops for one of four reasons (`HeaderEnd`): the
  newline comes next, the buffer is full, the socket has nothing more, or the
  connection is gone.
-/
import FileServer.Equiv.Exit

namespace FileServer

open Loop

/-! ### Bytes at hand -/

/-- The bytes that can be read before anything but `EINTR` comes between. -/
def ready : List RxItem → List Byte
  | .data b bs :: rx => b :: bs ++ ready rx
  | .eintr :: rx => ready rx
  | _ => []

theorem ready_pushBack (bs : List Byte) (rx : List RxItem) :
    ready (pushBack bs rx) = bs ++ ready rx := by
  cases bs with
  | nil => rfl
  | cons => rfl

section Read

variable {s : Script} {n : Nat}

theorem ready_read_bytes {bs : List Byte} (h : (s.read n).1 = .bytes bs) :
    ready s.rx = bs ++ ready (s.read n).2.rx := by
  revert h
  unfold Script.read
  cases s.rx with
  | nil => intro h; cases h
  | cons x rx =>
    cases x with
    | data b bs' =>
      intro h
      obtain rfl := ReadResult.bytes.inj h
      change b :: bs' ++ ready rx = _ ++ ready (pushBack ((b :: bs').drop n) rx)
      rw [ready_pushBack, ← List.append_assoc, List.take_append_drop]
    | _ => intro h; cases h

theorem ready_read_eintr (h : (s.read n).1 = .eintr) : ready s.rx = ready (s.read n).2.rx := by
  revert h
  unfold Script.read
  cases s.rx with
  | nil => intro h; cases h
  | cons x rx =>
    cases x with
    | eintr => exact fun _ => rfl
    | _ => intro h; cases h

theorem ready_read_none (hbytes : ∀ bs, (s.read n).1 ≠ .bytes bs)
    (heintr : (s.read n).1 ≠ .eintr) : ready s.rx = [] := by
  revert hbytes heintr
  unfold Script.read
  cases s.rx with
  | nil => exact fun _ _ => rfl
  | cons x rx =>
    cases x with
    | data b bs => exact fun h _ => absurd rfl (h _)
    | eintr => exact fun _ h => absurd rfl h
    | _ => exact fun _ _ => rfl

theorem ReadResult.Ended.ready {s : Script} (h : (s.read n).1.Ended) (hn : 0 < n) :
    FileServer.ready s.rx = [] := by
  rcases h with h | h | h
  · exact ready_read_none (fun bs hbs => by cases h.symm.trans hbs)
      (fun he => by cases h.symm.trans he)
  · exact ready_read_none (fun bs hbs => by cases h.symm.trans hbs)
      (fun he => by cases h.symm.trans he)
  · -- a read of at least one byte gives none only at the end of the stream
    exfalso
    revert h
    unfold Script.read
    cases s.rx with
    | nil => intro h; cases h
    | cons x rx =>
      cases x with
      | data b bs =>
        intro h
        have hnil := ReadResult.bytes.inj h
        obtain ⟨m, rfl⟩ : ∃ m, n = m + 1 := ⟨n - 1, by omega⟩
        cases hnil
      | _ => intro h; cases h

end Read

/-- The first newline of a list, and what is before it. -/
theorem first_newline {l got rest : List Byte} {n : Nat} (h : l = got ++ newline :: rest)
    (hroom : got.length < n) (hgot : newline ∉ got) :
    newline ∈ l.take n ∧ beforeChar newline l = got := by
  subst h
  constructor
  · obtain ⟨m, rfl⟩ : ∃ m, n = got.length + (m + 1) := ⟨n - got.length - 1, by omega⟩
    rw [List.take_length_add_append]
    exact List.mem_append_right _ (List.mem_cons_self ..)
  · rw [beforeChar, List.takeWhile_append_of_pos]
    · exact List.append_nil _
    · exact fun b hb => decide_eq_true fun heq => hgot (heq ▸ hb)

/-! ### The loop -/

/-- The loop has stored `got`, and nothing else has changed. -/
structure Scanned (c t : Ctx) (got : List Byte) : Prop extends Ahead c t where
  state : t.client.state = .recvHeader
  globals : t.toGlobals = c.toGlobals
  buf : t.client.headerBuf = c.client.headerBuf ++ got
  len : t.client.headerLen = c.client.headerLen + got.length
  received : t.received = c.received ++ got
  ready : ready c.script.rx = got ++ ready t.script.rx
  mem : t.script.mem = c.script.mem
  line : newline ∉ got
  room : c.client.headerLen ≤ maxHeaderLen - 1 → t.client.headerLen ≤ maxHeaderLen - 1

/-- How the loop ends. -/
inductive HeaderEnd (c : Ctx) : Ctx → Prop
  | line {t : Ctx} {got rest : List Byte} (h : Scanned c t got)
      (hlen : t.client.headerLen < maxHeaderLen - 1) (hr : (t.sysRead 1).1 = .bytes [newline])
      (hready : ready t.script.rx = newline :: rest) :
      HeaderEnd c (parseHeaderAndTransition (storeHeader t newline))
  | tooLong {t : Ctx} {got : List Byte} (h : Scanned c t got)
      (hlen : t.client.headerLen ≥ maxHeaderLen - 1) :
      HeaderEnd c (prepareAndSendResponse t .error errBadRequest)
  | drained {t : Ctx} {got : List Byte} (h : Scanned c t got)
      (hlen : t.client.headerLen < maxHeaderLen - 1) (hr : (t.sysRead 1).1 = .eagain)
      (hready : ready t.script.rx = []) : HeaderEnd c (t.sysRead 1).2
  | closed {t : Ctx} {got : List Byte} (h : Scanned c t got)
      (hlen : t.client.headerLen < maxHeaderLen - 1)
      (hready : ready t.script.rx = []) : HeaderEnd c (closeAndCleanup (t.sysRead 1).2)

section Loop

variable {c t : Ctx} {got : List Byte}

theorem Scanned.refl (hc : c.freed = false) (hs : c.client.state = .recvHeader) :
    Scanned c c [] :=
  ⟨.refl hc, hs, rfl, (List.append_nil _).symm, rfl, (List.append_nil _).symm, rfl, rfl,
    List.not_mem_nil, id⟩

theorem Scanned.sysRead_eintr (h : Scanned c t got) (hr : (t.sysRead 1).1 = .eintr) :
    Scanned c (t.sysRead 1).2 got where
  toAhead := h.toAhead.sysRead 1
  state := h.state
  globals := h.globals
  buf := h.buf
  len := h.len
  received := by
    rw [Conn.received_of_log (Ctx.sysRead_log t 1), hr, h.received]
    exact List.append_nil _
  ready := h.ready.trans (congrArg _ (ready_read_eintr hr))
  mem := (Script.read_mem ..).trans h.mem
  line := h.line
  room := h.room

theorem Scanned.storeHeader (h : Scanned c t got) {b : Byte} {bs : List Byte}
    (hlen : t.client.headerLen < maxHeaderLen - 1) (hr : (t.sysRead 1).1 = .bytes (b :: bs))
    (hb : b ≠ newline) : Scanned c (FileServer.storeHeader t b) (got ++ [b]) where
  toAhead := h.toAhead.storeHeader b
  state := h.state
  globals := h.globals
  buf := by
    change t.client.headerBuf ++ [b] = _
    rw [h.buf, List.append_assoc]
  len := by
    change t.client.headerLen + 1 = _
    rw [h.len, List.length_append, List.length_singleton, Nat.add_assoc]
  received := by rw [storeHeader_received hr, h.received, List.append_assoc]
  ready := by
    rw [h.ready, List.append_assoc]
    exact congrArg _ (ready_read_bytes (sysRead_one hr))
  mem := (Script.read_mem ..).trans h.mem
  line := by
    rw [List.mem_append, List.mem_singleton]
    rintro (hmem | rfl)
    · exact h.line hmem
    · exact hb rfl
  room := fun _ => hlen

/-- One pass: on with one byte more, or out. -/
theorem readHeaderPass_scanned (h : Scanned c t got) :
    match readHeaderPass t with
    | .again t' => ∃ got', Scanned c t' got'
    | .leave t' => t' = t ∧ t.client.headerLen ≥ maxHeaderLen - 1 ∨
        t'.client.headerLen < maxHeaderLen - 1 ∧ HeaderEnd c t'
    | .ret t' => HeaderEnd c t' := by
  unfold readHeaderPass
  dsimp only
  split_ifs with hlen
  · cases hr : (t.sysRead 1).1 with
    | eintr => exact ⟨got, h.sysRead_eintr hr⟩
    | eagain =>
      -- `EAGAIN` means that nothing more has arrived
      have hready : ready t.script.rx = [] := ready_read_none (n := 1)
        (fun bs hbs => by cases hr.symm.trans hbs) (fun he => by cases hr.symm.trans he)
      exact .inr ⟨hlen, .drained h hlen hr hready⟩
    | err => exact .closed h hlen (ReadResult.Ended.ready (.inl hr) Nat.one_pos)
    | eof => exact .closed h hlen (ReadResult.Ended.ready (.inr (.inl hr)) Nat.one_pos)
    | bytes bs =>
      cases bs with
      | nil => exact .closed h hlen (ReadResult.Ended.ready (.inr (.inr hr)) Nat.one_pos)
      | cons b bs =>
        dsimp only
        split_ifs with hb
        · subst hb
          exact .line h hlen (sysRead_one hr) (ready_read_bytes (sysRead_one hr))
        · exact ⟨_, h.storeHeader hlen hr hb⟩
  · exact .inl ⟨rfl, Nat.le_of_not_lt hlen⟩

theorem readHeader_end (hc : c.freed = false) (hs : c.client.state = .recvHeader) :
    HeaderEnd c (readHeader c) := by
  obtain ⟨t, ⟨got, hscan⟩, heq, hfin⟩ := exec_spec readHeaderPass_decreases
    (I := fun t => ∃ got, Scanned c t got)
    (fun t t' ⟨got, hscan⟩ hpass => by
      have := readHeaderPass_scanned hscan
      rw [hpass] at this
      exact this)
    (s := c) ⟨[], .refl hc hs⟩
  have hpass := readHeaderPass_scanned hscan
  unfold readHeader
  rw [heq]
  cases hp : readHeaderPass t with
  | again t' => rw [hp] at hfin; exact hfin.elim
  | ret t' => rw [hp] at hpass; exact hpass
  | leave t' =>
    rw [hp] at hpass
    dsimp only
    rcases hpass with ⟨rfl, hlen⟩ | ⟨hlen, hend⟩
    · rw [if_pos hlen]
      exact .tooLong hscan hlen
    · rw [if_neg (Nat.not_le.mpr hlen)]
      exact hend

end Loop

/-! ### A first event -/

/-- A client has connected and `text` has arrived; the writes to it will meet `tx`. -/
def arrived (text : List Byte) (tx : List TxItem) : Server :=
  (Server.boot bareDisk).run [.accept 5 ⟨pushBack text [], tx, [], []⟩]

theorem arrived_reachable (text : List Byte) (tx : List TxItem) : Reachable (arrived text tx) :=
  ⟨bareDisk, _, bareDisk_fresh, rfl⟩

end FileServer
