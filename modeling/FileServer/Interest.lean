/-
  What a connection is watched for.

  A connection that receives is registered for READ.  One that has a reply to send is
  to be registered for WRITE; this fails on one path, where
  `execute_simple_response_write` returns from the first write of a reply with
  `EAGAIN` and does not change the registration, as it does after a partial write.
  `Unheard` says which events take that path, by the record, the script and the list.
-/
import FileServer.Equiv.Reading
import FileServer.Record

namespace FileServer

/-! ### In every run -/

/-- A connection is registered as long as it lives, for READ while it receives. -/
structure Registered (c : Ctx) : Prop where
  conn : ConnOk c
  receiving : c.freed = false → c.client.state.Receiving → c.interest = some .read
  alive : c.freed = false → c.interest ≠ none

/-- A reply that is left unsent waits for WRITE, or for what the connection was watched for. -/
theorem Answered.interest {c c' : Ctx} (h : Answered c c') (hlive : c'.freed = false) :
    c'.interest = some .write ∨ c'.interest = c.interest := by
  cases h with
  | closed h => cases hlive.symm.trans h
  | writing hs hi => exact .inl hi
  | waits hs hi => exact .inr hi

/-- A READ event leaves a connection that still receives registered for READ. -/
theorem Exit.receiving {c c' : Ctx} (h : Exit c c') (hread : c.interest = some .read)
    (hlive : c'.freed = false) (hs : c'.client.state.Receiving) : c'.interest = some .read := by
  cases h with
  | answered h => exact absurd (h.sending hlive) hs.not_sending
  | drained _ _ hi => exact hi.trans hread
  | rearmed _ _ hi => exact hi
  | stalled _ _ hi => exact hi.trans hread
  | fault _ _ hi => exact hi.trans hread

theorem Exit.registered {c c' : Ctx} (h : Exit c c') (hread : c.interest = some .read)
    (hlive : c'.freed = false) : c'.interest ≠ none := by
  cases h with
  | answered h =>
    rcases h.interest hlive with hi | hi
    · exact hi ▸ Option.some_ne_none _
    · exact (hi.trans hread) ▸ Option.some_ne_none _
  | drained _ _ hi => exact (hi.trans hread) ▸ Option.some_ne_none _
  | rearmed _ _ hi => exact hi ▸ Option.some_ne_none _
  | stalled _ _ hi => exact (hi.trans hread) ▸ Option.some_ne_none _
  | fault _ _ hi => exact (hi.trans hread) ▸ Option.some_ne_none _

/-- What a READ part of an event keeps, the event keeps. -/
theorem Registered.event {c : Ctx} (h : Registered c) (hc : c.freed = false)
    (hf : c.fault = false) (ev : Events) : Registered (serveEvent c ev) where
  conn := connOk_stable.serveEvent hc hf h.conn ev
  receiving := fun hlive hs => by
    rcases serveEvent_exit hc hf h.conn ev with hfreed | ⟨d, hread, hwrite⟩
    · cases hlive.symm.trans hfreed
    rcases hwrite with heq | ⟨-, -, hawake⟩
    · rw [heq] at hlive hs ⊢
      -- the WRITE half did nothing, so what the READ half left is what counts
      rcases hread with rfl | ⟨-, hrecv, -, hexit⟩
      · exact h.receiving hc hs
      · exact hexit.receiving (h.receiving hc hrecv) hlive hs
    · cases hawake with
      | closed hfreed => cases hlive.symm.trans hfreed
      | writing _ hsend => exact absurd hsend hs.not_sending
  alive := fun hlive => by
    rcases serveEvent_exit hc hf h.conn ev with hfreed | ⟨d, hread, hwrite⟩
    · cases hlive.symm.trans hfreed
    have hd : d.freed = false → d.interest ≠ none := by
      rcases hread with rfl | ⟨-, hrecv, -, hexit⟩
      · exact h.alive
      · exact hexit.registered (h.receiving hc hrecv)
    rcases hwrite with heq | ⟨hdlive, -, hawake⟩
    · rw [heq] at hlive ⊢
      exact hd hlive
    · cases hawake with
      | closed hfreed => cases hlive.symm.trans hfreed
      | writing _ _ hi =>
        rcases hi with hi | hi
        · exact hi ▸ Option.some_ne_none _
        · exact hi ▸ hd hdlive

theorem registered_resting : Resting Registered fun _ _ => True where
  new := fun fd script g =>
    ⟨connOk_stable.new fd script g, fun _ _ => rfl, fun _ => Option.some_ne_none _⟩
  event := fun _ ev hc hf _ h => h.event hc hf ev
  globals := fun c g hg hf h =>
    ⟨connOk_stable.globals c g hg hf h.conn, h.receiving, h.alive⟩

/-! ### Where a reply finds its socket full -/

/-- The buffer of a LIST cannot be had: the list holds a `NULL` element, or `calloc` fails. -/
def NoListBuffer (c : Ctx) : Prop :=
  none ∈ c.serverFiles.contents ∨ c.script.mem.head? = some false

/-- `n` writes in a row find `EAGAIN`. -/
def FullFor : Nat → List TxItem → Prop
  | 0, _ => True
  | n + 1, tx => writable tx = false ∧ FullFor n tx.tail

/-- `n` calls of `execute_simple_response_write` find `EAGAIN` at the first write of a line.  Where
the line is the OK of a LIST that `fails`, it may go out; the ERROR behind it is then what finds
`EAGAIN`, at the call that sent the OK and at those after it. -/
def Stuck (fails : Prop) : Nat → List TxItem → Prop
  | 0, _ => True
  | n + 1, tx => writable tx = false ∧ Stuck fails n tx.tail ∨
      fails ∧ ∃ m tx', tx = .room m :: tx' ∧ (ascii "OK\n").length ≤ m ∧ FullFor (n + 1) tx'

/-- The event comes to a reply and leaves it with a line of which no byte is sent: the READ part
calls `execute_simple_response_write` for it, and the WRITE part, where there is one, once more. -/
structure Unheard (c : Ctx) (ev : Events) : Prop where
  error : ev.error = false
  read : ev.read = true
  replies : Replies c
  stuck : Stuck (AsksList c ∧ NoListBuffer c) (1 + ev.write.toNat) c.script.tx

theorem stuck_false {n : Nat} {tx : List TxItem} : Stuck False n tx ↔ FullFor n tx := by
  induction n generalizing tx with
  | zero => exact Iff.rfl
  | succ n ih =>
    rw [Stuck, FullFor, ih]
    exact ⟨fun h => h.resolve_right And.left, .inl⟩

theorem Stuck.one {fails : Prop} {n : Nat} {tx : List TxItem} (h : Stuck fails (n + 1) tx) :
    Stuck fails 1 tx := by
  rcases h with ⟨hw, -⟩ | ⟨hfails, m, tx', htx, hm, hw, -⟩
  · exact .inl ⟨hw, trivial⟩
  · exact .inr ⟨hfails, m, tx', htx, hm, hw, trivial⟩

/-- A reply waits, and the connection is registered for READ. -/
structure Unwatched (c : Ctx) : Prop where
  freed : c.freed = false
  sending : c.client.state.Sending
  interest : c.interest = some .read

theorem not_unwatched_of_freed {c : Ctx} (h : c.freed = true) : ¬ Unwatched c := fun hw => by
  cases h.symm.trans hw.freed

theorem not_unwatched_of_write {c : Ctx} (h : c.interest = some .write) :
    ¬ Unwatched c := fun hw => by
  cases h.symm.trans hw.interest

theorem not_unwatched_of_receiving {c : Ctx} (h : c.client.state.Receiving) :
    ¬ Unwatched c := fun hw =>
  h.not_sending hw.sending

/-- No byte of the line to be sent is sent. -/
structure Unsent (t : Ctx) : Prop where
  freed : t.freed = false
  interest : t.interest = some .read
  state : t.client.state = .sendOk ∨ t.client.state = .sendError
  sent : t.client.simpleResponseSent = 0
  rest : (simpleResponseRest t.client).length = t.client.simpleResponseLen
  ok : t.client.state = .sendOk → t.client.simpleResponseLen = (ascii "OK\n").length

/-- The line is the OK of a LIST that fails. -/
def Fails (t : Ctx) : Prop :=
  t.client.state = .sendOk ∧ t.client.requestVerb = .list ∧ NoListBuffer t

section Lines

variable {c t : Ctx}

theorem Unsent.unwatched (h : Unsent t) : Unwatched t :=
  ⟨h.freed, h.state.imp_right .inl, h.interest⟩

theorem writeLine_eagain (h : writable t.script.tx = false) : (writeLine t).1 = .eagain := by
  change (t.script.write (simpleResponseRest t.client).length).1 = .eagain
  unfold Script.write
  cases htx : t.script.tx with
  | nil => rfl
  | cons x tx =>
    cases x with
    | eagain => rfl
    | room n => rw [htx] at h; cases h
    | err => rw [htx] at h; cases h

theorem Unsent.writeLine (h : Unsent t) : Unsent (FileServer.writeLine t).2 :=
  ⟨h.freed, h.interest, h.state, h.sent, h.rest, h.ok⟩

/-- An ERROR line goes out in part at least, or waits. -/
theorem executeWith_error (hs : t.client.state = .sendError) (f : Ctx → Ctx) :
    writable t.script.tx = false ∧ executeWith f t = (writeLine t).2 ∨
      writable t.script.tx = true ∧ ¬ Unwatched (executeWith f t) := by
  cases hw : writable t.script.tx with
  | false =>
    refine .inl ⟨rfl, ?_⟩
    rw [executeWith_eq, writeLine_eagain hw]
  | true =>
    refine .inr ⟨rfl, ?_⟩
    rcases executeWith_error_exit f hs with hfreed | ⟨-, hi⟩ | ⟨-, hno⟩
    · exact not_unwatched_of_freed hfreed
    · exact not_unwatched_of_write hi
    · cases hw.symm.trans hno

theorem fillResponse_unsent (hc : c.freed = false) (hi : c.interest = some .read) (st : Status)
    (msg : List Byte) : Unsent (fillResponse c st msg) where
  freed := hc
  interest := hi
  state := by cases st <;> simp [fillResponse]
  sent := rfl
  rest := by
    change ((((responseText st msg).take (maxHeaderLen - 1)).drop 0).take
      ((if (responseText st msg).length ≥ maxHeaderLen then maxHeaderLen - 1
        else (responseText st msg).length) - 0)).length = if _ then _ else _
    rw [List.drop_zero, Nat.sub_zero, List.length_take, List.length_take]
    split_ifs with hlen
    · exact Nat.min_eq_left (by omega)
    · exact Nat.min_eq_left (by omega)
  ok := by
    cases st with
    | ok => exact fun _ => rfl
    | error => exact fun h => by cases h

/-- A call of `execute_simple_response_write` leads from `t` to `t'`: what it leaves of the line is
unwatched exactly if the call is stuck, and goes on as the same line. -/
structure Attempt (t t' : Ctx) : Prop where
  now : Unwatched t' ↔ Stuck (Fails t) 1 t.script.tx
  unsent : Unwatched t' → Unsent t'
  later : Unwatched t' → ∀ n,
    (Stuck (Fails t) (n + 1) t.script.tx ↔ Stuck (Fails t') n t'.script.tx)

theorem Attempt.heard {t' : Ctx} (hw : ¬ Unwatched t') (hs : ¬ Stuck (Fails t) 1 t.script.tx) :
    Attempt t t' :=
  ⟨iff_of_false hw hs, fun h => absurd h hw, fun h => absurd h hw⟩

/-- The socket takes nothing of the line, and nothing else changes. -/
theorem Unsent.attempt_full (h : Unsent t) (hw : writable t.script.tx = false) :
    Attempt t (executeSimpleResponseWrite t) := by
  have heq : executeSimpleResponseWrite t = (FileServer.writeLine t).2 := by
    rw [executeSimpleResponseWrite_eq, executeWith_eq, writeLine_eagain hw]
  have htx : (FileServer.writeLine t).2.script.tx = t.script.tx.tail := sysWrite_tx t _
  have hfails : Fails (FileServer.writeLine t).2 ↔ Fails t := by
    unfold Fails NoListBuffer
    rw [show (FileServer.writeLine t).2.script.mem = t.script.mem from Script.write_mem ..]
    exact Iff.rfl
  rw [heq]
  refine ⟨iff_of_true h.writeLine.unwatched (.inl ⟨hw, trivial⟩), fun _ => h.writeLine, ?_⟩
  intro _ n
  rw [propext hfails, htx]
  refine ⟨fun hs => ?_, fun hs => .inl ⟨hw, hs⟩⟩
  rcases hs with ⟨-, hs⟩ | ⟨-, m, tx', htx', -⟩
  · exact hs
  · rw [htx'] at hw
    cases hw

/-- The OK line of a LIST is out, and what comes behind it is to be written over `tx`. -/
theorem Unsent.attempt_list (h : Unsent t) (hs : t.client.state = .sendOk)
    (hv : t.client.requestVerb = .list) {m : Nat} {tx : List TxItem}
    (htx : t.script.tx = .room m :: tx) (hm : (ascii "OK\n").length ≤ m) (n : Nat) :
    Attempt t (startSendList (sentLine t n)) := by
  have hbuffer : (buildListBuffer (sentLine t n)).1 = none ↔ NoListBuffer t := by
    rw [buildListBuffer_eq_none, sentLine_mem]
    exact Iff.rfl
  have hstuck : ∀ k, Stuck (Fails t) (k + 1) t.script.tx ↔ Fails t ∧ FullFor (k + 1) tx := by
    intro k
    rw [htx]
    constructor
    · rintro (⟨hw, -⟩ | ⟨hfails, m', tx', heq, -, hfull⟩)
      · cases hw
      · cases heq
        exact ⟨hfails, hfull⟩
    · exact fun ⟨hfails, hfull⟩ => .inr ⟨hfails, m, tx, rfl, hm, hfull⟩
  unfold startSendList
  dsimp only
  cases hb : (buildListBuffer (sentLine t n)).1 with
  | some buffer =>
    refine .heard (not_unwatched_of_write rfl) fun hs => ?_
    cases hb.symm.trans (hbuffer.mpr ((hstuck 0).mp hs).1.2.2)
  | none =>
    have hfails : Fails t := ⟨hs, hv, hbuffer.mp hb⟩
    generalize he : fillResponse (buildListBuffer (sentLine t n)).2 .error errBadRequest = e
    have hunsent : Unsent e := he ▸ fillResponse_unsent
      ((buildListBuffer_freed (sentLine t n)).trans h.freed)
      ((buildListBuffer_interest (sentLine t n)).trans h.interest) _ _
    have hetx : e.script.tx = tx := by
      rw [← he]
      exact (buildListBuffer_tx _).trans ((sysWrite_tx t _).trans (by rw [htx]; rfl))
    have hstate : e.client.state = .sendError := by rw [← he]; rfl
    rcases executeWith_error hstate id with ⟨hw, heq⟩ | ⟨hw, hno⟩
    · rw [hetx] at hw
      rw [heq]
      refine ⟨iff_of_true hunsent.writeLine.unwatched ((hstuck 0).mpr ⟨hfails, hw, trivial⟩),
        fun _ => hunsent.writeLine, fun _ k => ?_⟩
      have herror : ¬ Fails (FileServer.writeLine e).2 := fun hf => by
        cases hstate.symm.trans hf.1
      rw [hstuck k, propext (iff_false_intro herror), stuck_false,
        show (FileServer.writeLine e).2.script.tx = tx.tail from
          (sysWrite_tx e _).trans (congrArg List.tail hetx)]
      exact ⟨fun hfull => hfull.2.2, fun hfull => ⟨hfails, hw, hfull⟩⟩
    · rw [hetx] at hw
      refine .heard hno fun hs => ?_
      cases hw.symm.trans ((hstuck 0).mp hs).2.1

/-- **One call of `execute_simple_response_write`** for a line of which nothing is sent. -/
theorem Unsent.attempt (h : Unsent t) : Attempt t (executeSimpleResponseWrite t) := by
  cases hw : writable t.script.tx with
  | false => exact h.attempt_full hw
  | true =>
    have hstuck : (∀ m tx, t.script.tx = .room m :: tx → Fails t →
        ¬ (ascii "OK\n").length ≤ m) → ¬ Stuck (Fails t) 1 t.script.tx := by
      rintro hno (⟨hw', -⟩ | ⟨hfails, m, tx, htx, hm, -⟩)
      · cases hw.symm.trans hw'
      · exact hno m tx htx hfails hm
    rcases h.state with hs | hs
    swap
    · refine .heard (fun hu => ?_) (hstuck fun m tx htx hfails => by cases hs.symm.trans hfails.1)
      rcases executeWith_error hs startSendList with ⟨hw', -⟩ | ⟨-, hno⟩
      · cases hw.symm.trans hw'
      · exact hno hu
    rw [executeSimpleResponseWrite_eq, executeWith_eq]
    cases htx : t.script.tx with
    | nil => rw [htx] at hw; cases hw
    | cons x tx =>
      cases x with
      | eagain => rw [htx] at hw; cases hw
      | err =>
        have hwrite : (FileServer.writeLine t).1 = .err := by
          change (t.script.write _).1 = _
          rw [Script.write, htx]
        rw [hwrite]
        exact .heard (not_unwatched_of_freed rfl)
          (hstuck fun m tx' htx' => by cases htx.symm.trans htx')
      | room m =>
        have hwrite : (FileServer.writeLine t).1 = .wrote (min m t.client.simpleResponseLen) := by
          change (t.script.write _).1 = _
          rw [Script.write, htx, h.rest]
        rw [hwrite]
        dsimp only
        rw [h.sent, Nat.zero_add, h.ok hs]
        split_ifs with hall
        · have hm : (ascii "OK\n").length ≤ m := by omega
          rw [hs]
          cases hv : t.client.requestVerb with
          | list => exact h.attempt_list hs hv htx hm _
          | get =>
            exact .heard (not_unwatched_of_write rfl)
              (hstuck fun _ _ _ hfails => by cases hv.symm.trans hfails.2.1)
          | _ =>
            exact .heard (not_unwatched_of_freed rfl)
              (hstuck fun _ _ _ hfails => by cases hv.symm.trans hfails.2.1)
        · refine .heard (not_unwatched_of_write rfl) (hstuck fun m' tx' htx' _ hm => hall ?_)
          cases htx.symm.trans htx'
          exact Nat.min_eq_right hm

end Lines

/-! ### Events -/

/-- The registration matches the state. -/
structure Watched (c : Ctx) : Prop extends Registered c where
  sending : c.freed = false → c.client.state.Sending → c.interest = some .write

theorem Registered.watched_iff {c : Ctx} (h : Registered c) : Watched c ↔ ¬ Unwatched c := by
  constructor
  · intro hw hu
    cases hu.interest.symm.trans (hw.sending hu.freed hu.sending)
  · refine fun hno => ⟨h, fun hlive hs => ?_⟩
    cases hi : c.interest with
    | none => exact absurd hi (h.alive hlive)
    | some i =>
      cases i with
      | read => exact absurd ⟨hlive, hs, hi⟩ hno
      | write => rfl

section Events

variable {c d : Ctx} {ev : Events}

/-- A WRITE part does not take a connection off its registration for WRITE. -/
theorem Awake.not_unwatched {c' : Ctx} (h : Awake c c') (hi : c.interest = some .write) :
    ¬ Unwatched c' := by
  cases h with
  | closed hfreed => exact not_unwatched_of_freed hfreed
  | writing _ _ hi' => exact not_unwatched_of_write (hi'.elim id fun hi' => hi'.trans hi)

/-- The WRITE part of an event. -/
def writePart (ev : Events) (d : Ctx) : Ctx :=
  if ev.write then
    if d.freed then { d with fault := true }
    else if d.client.state ≠ .recvHeader then handleWriteEvent d
    else d
  else d

theorem serveEvent_eq (he : ev.error = false) :
    serveEvent c ev = writePart ev (if ev.read then handleReadEvent c else c) := by
  unfold serveEvent
  rw [if_neg (by simp [he])]
  rfl

/-- A connection that is gone, or receives, is left so. -/
theorem writePart_idle (h : d.freed = true ∨ d.client.state.Receiving) :
    ¬ Unwatched (writePart ev d) := by
  have hd : ¬ Unwatched d := h.elim not_unwatched_of_freed not_unwatched_of_receiving
  unfold writePart
  split_ifs with hw hfreed hs
  · exact not_unwatched_of_freed hfreed
  · rw [handleWriteEvent_of_receiving (h.resolve_left hfreed)]
    exact hd
  · exact hd
  · exact hd

theorem writePart_of_sending (hc : d.freed = false) (hs : d.client.state.Sending) :
    writePart ev d = if ev.write then handleWriteEvent d else d := by
  unfold writePart
  rw [hc, if_pos hs.ne.1]
  rfl

theorem writePart_writing (hc : d.freed = false) (hs : d.client.state.Sending)
    (hi : d.interest = some .write) : ¬ Unwatched (writePart ev d) := by
  rw [writePart_of_sending hc hs]
  split_ifs
  · exact (handleWriteEvent_awake hc hs).not_unwatched hi
  · exact not_unwatched_of_write hi

/-- What a call leaves is gone, registered for WRITE, or unwatched. -/
theorem Unsent.execute_cases (h : Unsent d) : (executeSimpleResponseWrite d).freed = true ∨
    (executeSimpleResponseWrite d).client.state.Sending ∧
      (executeSimpleResponseWrite d).interest = some .write ∨
    Unwatched (executeSimpleResponseWrite d) := by
  cases hexit : (executeSimpleResponseWrite d).freed with
  | true => exact .inl rfl
  | false =>
    refine .inr ?_
    cases (executeSimpleResponseWrite_exit h.state).awake with
    | closed hfreed => cases hexit.symm.trans hfreed
    | writing _ hs hi =>
      rcases hi with hi | hi
      · exact .inl ⟨hs, hi⟩
      · exact .inr ⟨hexit, hs, hi.trans h.interest⟩

/-- A line is written by the READ part, and once more by the WRITE part. -/
theorem Unsent.writePart (h : Unsent d) :
    Unwatched (FileServer.writePart ev (executeSimpleResponseWrite d)) ↔
      Stuck (Fails d) (1 + ev.write.toNat) d.script.tx := by
  have hfirst := h.attempt
  rcases h.execute_cases with hfreed | ⟨hs, hi⟩ | hu
  · refine iff_of_false (writePart_idle (.inl hfreed)) fun hstuck => ?_
    rw [Nat.add_comm] at hstuck
    exact not_unwatched_of_freed hfreed (hfirst.now.mpr hstuck.one)
  · cases hlive : (executeSimpleResponseWrite d).freed with
    | true =>
      refine iff_of_false (writePart_idle (.inl hlive)) fun hstuck => ?_
      rw [Nat.add_comm] at hstuck
      exact not_unwatched_of_freed hlive (hfirst.now.mpr hstuck.one)
    | false =>
      refine iff_of_false (writePart_writing hlive hs hi) fun hstuck => ?_
      rw [Nat.add_comm] at hstuck
      exact not_unwatched_of_write hi (hfirst.now.mpr hstuck.one)
  · rw [writePart_of_sending hu.freed hu.sending]
    cases ev.write with
    | false => exact iff_of_true hu (hfirst.now.mp hu)
    | true =>
      have hunsent := hfirst.unsent hu
      have hwrite : handleWriteEvent (executeSimpleResponseWrite d)
          = executeSimpleResponseWrite (executeSimpleResponseWrite d) := by
        unfold handleWriteEvent
        rcases hunsent.state with hs | hs <;> rw [hs]
      rw [if_pos rfl, hwrite]
      exact hunsent.attempt.now.trans (hfirst.later hu 1).symm

/-- **One event** leaves a reply unwatched exactly if it is unheard. -/
theorem serveEvent_unwatched_iff (hc : c.freed = false) (h : Watched c)
    (hfile : c.client.state = .recvPutData → c.client.fileFd.isSome) :
    Unwatched (serveEvent c ev) ↔ Unheard c ev := by
  cases he : ev.error with
  | true =>
    have heq : serveEvent c ev = closeAndCleanup c := by
      unfold serveEvent
      rw [if_pos he]
    rw [heq]
    exact iff_of_false (not_unwatched_of_freed rfl) fun hu => by cases he.symm.trans hu.error
  | false =>
    rw [serveEvent_eq he]
    rcases c.client.state.cases with hs | hs | hs
    · cases hr : ev.read with
      | false =>
        rw [if_neg (by simp)]
        exact iff_of_false (writePart_idle (.inr hs)) fun hu => by cases hr.symm.trans hu.read
      | true =>
        rw [if_pos rfl]
        have hread := handleReadEvent_reading hc h.conn hs hfile
        generalize handleReadEvent c = c' at hread
        cases hread with
        | silent hno hend => exact iff_of_false (writePart_idle hend) fun hu => hno hu.replies
        | @reply t st msg hreply ht =>
          have hunsent := fillResponse_unsent ht.freed
            (ht.interest.trans (h.receiving hc hs)) st msg
          have hfails : Fails (fillResponse t st msg) ↔ AsksList c ∧ NoListBuffer c := by
            have hstate : (fillResponse t st msg).client.state = .sendOk ↔ st = .ok := by
              cases st <;> simp [fillResponse]
            constructor
            · rintro ⟨hok, hv, hno⟩
              have hl := ht.list.mp ⟨hstate.mp hok, hv⟩
              obtain ⟨hfiles, hmem⟩ := ht.names hl
              exact ⟨hl, hno.imp (hfiles ▸ ·) (hmem ▸ ·)⟩
            · rintro ⟨hl, hno⟩
              obtain ⟨hst, hv⟩ := ht.list.mpr hl
              obtain ⟨hfiles, hmem⟩ := ht.names hl
              exact ⟨hstate.mpr hst, hv, hno.imp (hfiles.symm ▸ ·) (hmem.symm ▸ ·)⟩
          have htx : (fillResponse t st msg).script.tx = c.script.tx := ht.tx
          rw [prepareAndSendResponse_eq, hunsent.writePart, propext hfails, htx]
          exact ⟨fun hstuck => ⟨he, hr, hreply, hstuck⟩, fun hu => hu.stuck⟩
    · have hread : (if ev.read then handleReadEvent c else c) = c := by
        split_ifs
        · exact handleReadEvent_of_sending hs
        · rfl
      rw [hread]
      refine iff_of_false (writePart_writing hc hs (h.sending hc hs)) fun hu => ?_
      cases hu.replies with
      | line hl => exact hs.ne.1 hl.1
      | tooLong hs' => exact hs.ne.1 hs'
      | size hs' => exact hs.ne.2.1 hs'
      | body hs' => exact hs.ne.2.2.1 hs'
    · cases hc.symm.trans (h.conn.done hs)

end Events

/-! ### Runs -/

/-- Every connection is registered for what its state waits for. -/
def Server.Matches (s : Server) : Prop :=
  ∀ conn ∈ s.conns, conn.freed = false →
    (conn.client.state.Receiving → conn.interest = some .read) ∧
    (conn.client.state.Sending → conn.interest = some .write)

/-- While the process runs, the action is no event that leaves its reply unheard. -/
def Server.Hears (s : Server) (a : Action) : Prop :=
  s.fault = false → Allows (fun c ev => ¬ Unheard c ev) s a

/-- What holds of every connection between events, whatever the socket takes. -/
structure Settled (c : Ctx) : Prop where
  registered : Registered c
  file : c.freed = false → c.client.state = .recvPutData → c.client.fileFd.isSome

section Runs

variable {s : Server}

theorem Settled.matches_iff {c : Ctx} (h : Settled c) : Watched c ↔ c.freed = false →
    (c.client.state.Receiving → c.interest = some .read) ∧
    (c.client.state.Sending → c.interest = some .write) :=
  ⟨fun hw hlive => ⟨hw.receiving hlive, hw.sending hlive⟩,
    fun hmatch => ⟨h.registered, fun hlive => (hmatch hlive).2⟩⟩

theorem settled_run (k : Disk) (acts : List Action) :
    ∀ conn ∈ ((Server.boot k).run acts).conns, Settled (((Server.boot k).run acts).ctx conn) := by
  intro conn hmem
  have hreg := registered_resting.run (.boot k) (fun conn h => by cases h)
    (fun _ _ _ _ _ _ _ _ _ _ _ => trivial) conn hmem
  have hbuf := buffersOk_stable.run (.boot k) (fun conn h => by cases h) acts conn hmem
  exact ⟨hreg, fun hlive hs => (hbuf.2.file hlive).mpr (.inl hs)⟩

/-- **One action** keeps every registration right exactly if no reply is unheard. -/
theorem matches_act_iff (hm : MapInv s) (hset : ∀ conn ∈ s.conns, Settled (s.ctx conn))
    (hs : s.Matches) (a : Action) : (s.act a).Matches ↔ s.Hears a := by
  by_cases hfault : s.fault = true
  · have hact : s.act a = s := if_pos hfault
    rw [hact]
    exact iff_of_true hs fun hf => by cases hfault.symm.trans hf
  have hf : s.fault = false := by simpa using hfault
  cases a with
  | accept fd script =>
    refine iff_of_true ?_ fun _ fd' ev i conn heq => by cases heq
    have hacted := Server.act_acted hm (.accept fd script)
    generalize s.act (.accept fd script) = s' at hacted
    cases hacted with
    | idle => exact hs
    | accept =>
      intro conn hmem hlive
      rcases List.mem_append.mp hmem with hmem | hmem
      · exact hs conn hmem hlive
      · obtain rfl := List.mem_singleton.mp hmem
        exact ⟨fun _ => rfl, fun hsend => absurd rfl hsend.ne.1⟩
    | noMemory => exact hs
  | event fd ev =>
    have hact : s.act (.event fd ev) = handleEvent s fd ev := if_neg hfault
    rw [hact]
    cases hget : dictionaryGet s.fdToClient fd with
    | none =>
      have hidle : handleEvent s fd ev = s := by
        unfold handleEvent
        rw [hget]
      rw [hidle]
      refine iff_of_true hs fun _ fd' ev' i conn heq hget' => ?_
      cases heq
      cases hget.symm.trans hget'
    | some i =>
      obtain ⟨conn, hi, hlive, -⟩ := hm.get hget
      have hmem := List.mem_of_getElem? hi
      have hset := hset conn hmem
      have hwatched : Watched (s.ctx conn) := hset.matches_iff.mpr (hs conn hmem)
      have hevent : Unwatched (serveEvent (s.ctx conn) ev) ↔ Unheard (s.ctx conn) ev :=
        serveEvent_unwatched_iff hlive hwatched (hset.file hlive)
      have hafter := (hset.registered.event hlive hf ev).watched_iff
      rw [handleEvent_eq ev hget hi]
      constructor
      · intro hmatch _ fd' ev' i' conn' heq hget' hi'
        cases heq
        obtain rfl := Option.some.inj (hget.symm.trans hget')
        obtain rfl := Option.some.inj (hi.symm.trans hi')
        have hmem' : (serveEvent (s.ctx conn) ev).toConn
            ∈ (s.put i (serveEvent (s.ctx conn) ev)).conns :=
          List.mem_of_getElem? (Server.put_conns_self _ hi)
        have hw : Watched (serveEvent (s.ctx conn) ev) :=
          ⟨hset.registered.event hlive hf ev, fun hlive' => (hmatch _ hmem' hlive').2⟩
        exact fun hu => hafter.mp hw (hevent.mpr hu)
      · intro hhears conn' hmem'
        rcases List.mem_or_eq_of_mem_set hmem' with hmem' | rfl
        · exact hs conn' hmem'
        · have hno := hhears hf fd ev i conn rfl hget hi
          have hw := hafter.mpr fun hu => hno (hevent.mp hu)
          exact fun hlive' => ⟨hw.receiving hlive', hw.sending hlive'⟩

end Runs

/-- **Every connection is registered for what its state waits for**, throughout a run, if and only
if no event of the run leaves its reply unheard. -/
theorem interest_matches_iff (k : Disk) (acts : List Action) :
    (∀ pre a post, acts = pre ++ a :: post → ((Server.boot k).run (pre ++ [a])).Matches) ↔
      ∀ pre a post, acts = pre ++ a :: post → ((Server.boot k).run pre).Hears a := by
  refine Chain.forall_split_iff (I := fun pre => ((Server.boot k).run pre).Matches)
    (fun conn hmem => by cases hmem) (fun pre a hs => hs) (fun pre a hs => ?_) acts
  rw [Server.run_concat]
  exact matches_act_iff ((MapInv.boot k).run pre) (settled_run k pre) hs a

/-- A client asks for the list; the writes of the server meet `tx`. -/
def askList (tx : List TxItem) : List Action :=
  [.accept 5 ⟨pushBack (ascii "LIST\n") [], tx, [], []⟩, .event 5 .onRead]

/-- The socket is full when the first byte of `OK` is to be written. -/
theorem not_interest_matches_fullSocket : ¬ ∀ s, Reachable s → ∀ conn ∈ s.conns,
    conn.freed = false → (conn.client.state.Receiving → conn.interest = some .read) ∧
      (conn.client.state.Sending → conn.interest = some .write) := by
  intro h
  obtain ⟨conn, hi, hlive, hs, hread⟩ :
      ∃ conn ∈ ((Server.boot bareDisk).run (askList [.eagain])).conns[0]?,
        conn.freed = false ∧ conn.client.state = .sendOk ∧ conn.interest = some .read := by
    decide +kernel
  have hwrite := (h _ ⟨bareDisk, askList [.eagain], bareDisk_fresh, rfl⟩ conn
    (List.mem_of_getElem? hi) hlive).2 (.inl hs)
  cases hread.symm.trans hwrite

end FileServer
