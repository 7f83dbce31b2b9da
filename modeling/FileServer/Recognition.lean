/-
  What the server makes of a request line.

  `stream` is what a connection has received with what a READ event can add to it.
  The event decides as soon as the stream holds a newline among its first 1023 bytes,
  or 1023 bytes without one; and it decides by the bytes before the newline alone.
  The parser looks for the newline with `strchr`, so that a line with a NUL in it is
  the exception: it is stored, but not found.
-/
import FileServer.Equiv.Event
import FileServer.Equiv.Header

namespace FileServer

/-! ### The form of a line -/

/-- The word for a verb at the start of a request line. -/
def Verb.word : Verb → List Byte
  | get => ascii "GET"
  | put => ascii "PUT"
  | delete => ascii "DELETE"
  | list => ascii "LIST"
  | unknown => []

/-- The verbs that take a name. -/
def Verb.Named (v : Verb) : Prop := v = .get ∨ v = .put ∨ v = .delete

/-- The verb and the name of a request that has one. -/
def Request.named : Request → Option (Verb × Path)
  | get w => some (.get, w)
  | put w => some (.put, w)
  | delete w => some (.delete, w)
  | _ => none

/-- The forms of a line, and the request of each. -/
inductive LineForm (line : List Byte) : Request → Prop
  | list (h : line = ascii "LIST") : LineForm line .list
  | named {q : Request} {v : Verb} {w : Path} (hv : v.Named) (hq : q.named = some (v, w))
      (h : line = nameLine v.word w) : LineForm line q
  | bad {v : Option Verb} (hlist : line ≠ ascii "LIST")
      (hnamed : ∀ v : Verb, v.Named → ∀ w, line ≠ nameLine v.word w) : LineForm line (.bad v)

theorem Verb.Named.space_not_mem {v : Verb} (h : v.Named) : space ∉ v.word := by
  rcases h with rfl | rfl | rfl <;> decide

theorem Verb.Named.word_injective {v v' : Verb} (h : v.Named) (h' : v'.Named)
    (heq : v.word = v'.word) : v = v' := by
  rcases h with rfl | rfl | rfl <;> rcases h' with rfl | rfl | rfl <;>
    first | rfl | exact absurd heq (by decide)

theorem nameLine_injective {v v' : Verb} (h : v.Named) (h' : v'.Named) {w w' : Path}
    (heq : nameLine v.word w = nameLine v'.word w') : v = v' ∧ w = w' := by
  refine ⟨h.word_injective h' ?_, ?_⟩
  · rw [← beforeChar_nameLine h.space_not_mem w, heq, beforeChar_nameLine h'.space_not_mem]
  · rw [← afterChar_nameLine h.space_not_mem w, heq, afterChar_nameLine h'.space_not_mem]

/-- A line with a blank is what precedes the first one, the blank, and the rest. -/
theorem nameLine_beforeChar {line : List Byte} (h : space ∈ line) :
    nameLine (beforeChar space line) (afterChar space line) = line := by
  unfold nameLine beforeChar afterChar
  have hdrop : line.dropWhile (· ≠ space) ≠ [] := by
    intro hnil
    rw [List.dropWhile_eq_nil_iff] at hnil
    simpa using hnil space h
  have hhead : (line.dropWhile (· ≠ space)).head hdrop = space := by
    simpa using List.head_dropWhile_not (p := (· ≠ space)) (l := line) hdrop
  calc line.takeWhile (· ≠ space) ++ [space] ++ (line.dropWhile (· ≠ space)).tail
      = line.takeWhile (· ≠ space) ++ line.dropWhile (· ≠ space) := by
        rw [List.append_assoc]
        congr 1
        conv_rhs => rw [← List.cons_head_tail hdrop, hhead]
        rfl
    _ = line := List.takeWhile_append_dropWhile

theorem beforeChar_of_not_mem {line : List Byte} {b : Byte} (h : b ∉ line) :
    beforeChar b line = line :=
  List.takeWhile_eq_self_iff.mpr fun _ hx => decide_eq_true fun heq => h (heq ▸ hx)

/-- **The parser recognises exactly the lines of the protocol.** -/
theorem requestOfLine_form (line : List Byte) : LineForm line (requestOfLine line) := by
  by_cases hsp : space ∈ line
  · have hline := nameLine_beforeChar hsp
    have hnoList : line ≠ ascii "LIST" := by
      rintro rfl
      revert hsp
      decide
    have hbad : beforeChar space line ≠ ascii "GET" → beforeChar space line ≠ ascii "PUT" →
        beforeChar space line ≠ ascii "DELETE" →
        ∀ v : Verb, v.Named → ∀ w, line ≠ nameLine v.word w := by
      rintro hget hput hdelete v hv w rfl
      rw [beforeChar_nameLine hv.space_not_mem] at hget hput hdelete
      rcases hv with rfl | rfl | rfl
      · exact hget rfl
      · exact hput rfl
      · exact hdelete rfl
    unfold requestOfLine
    dsimp only
    rw [if_pos hsp]
    split_ifs with hlist hdelete hget hput
    · exact .bad hnoList (hbad (by rw [hlist]; decide) (by rw [hlist]; decide)
        (by rw [hlist]; decide))
    · exact .named (v := .delete) (.inr (.inr rfl)) rfl (by rw [← hline, hdelete]; rfl)
    · exact .named (v := .get) (.inl rfl) rfl (by rw [← hline, hget]; rfl)
    · exact .named (v := .put) (.inr (.inl rfl)) rfl (by rw [← hline, hput]; rfl)
    · exact .bad hnoList (hbad hget hput hdelete)
  · have hnoNamed : ∀ v : Verb, v.Named → ∀ w, line ≠ nameLine v.word w := by
      rintro v - w rfl
      exact hsp (by simp [nameLine])
    unfold requestOfLine
    dsimp only
    rw [if_neg hsp, beforeChar_of_not_mem hsp]
    split_ifs with hlist hdelete hget hput
    · exact .list hlist
    · exact .bad hlist hnoNamed
    · exact .bad hlist hnoNamed
    · exact .bad hlist hnoNamed
    · exact .bad hlist hnoNamed

/-! ### What a request is answered -/

/-- At most two replies are chosen, and two only where LIST fails behind its OK line. -/
theorem ReplyOk.replies_cases {c : Conn} (h : ReplyOk c) :
    c.replies = [] ∨ (∃ r, c.replies = [r]) ∨
      c.client.requestVerb = .list ∧ ∃ m m', c.replies = [(.ok, m), (.error, m')] := by
  have hline : ∀ {rs st msg}, c.replies = rs ++ [(st, msg)] → Earlier c.client st rs →
      c.replies = [] ∨ (∃ r, c.replies = [r]) ∨
        c.client.requestVerb = .list ∧ ∃ m m', c.replies = [(.ok, m), (.error, m')] := by
    rintro rs st msg hreplies (rfl | ⟨hv, rfl, m, rfl⟩)
    · exact .inr (.inl ⟨_, hreplies⟩)
    · exact .inr (.inr ⟨hv, m, msg, hreplies⟩)
  have hpayload : ∀ {v payload}, PayloadOk c v payload →
      c.replies = [] ∨ (∃ r, c.replies = [r]) ∨
        c.client.requestVerb = .list ∧ ∃ m m', c.replies = [(.ok, m), (.error, m')] := by
    intro v payload hp
    obtain ⟨msg, hreplies⟩ := hp.replies
    exact .inr (.inl ⟨_, hreplies⟩)
  cases hs : c.client.state with
  | recvHeader => exact .inl (h.silent (.inl hs)).2
  | recvPutSize => exact .inl (h.silent (.inr (.inl hs))).2
  | recvPutData => exact .inl (h.silent (.inr (.inr hs))).2
  | sendOk =>
    obtain ⟨rs, st, msg, hl⟩ := h.line (.inl hs)
    exact hline hl.replies hl.earlier
  | sendError =>
    obtain ⟨rs, st, msg, hl⟩ := h.line (.inr hs)
    exact hline hl.replies hl.earlier
  | sendGetSize => exact hpayload (h.size hs).1
  | sendGetData =>
    obtain ⟨bytes, hp, -⟩ := (h.data hs).2
    exact hpayload hp
  | sendListData =>
    obtain ⟨buffer, -, -, -, hp⟩ := h.list hs
    exact hpayload hp
  | done =>
    rcases h.done hs with ⟨rs, st, msg, hl⟩ | ⟨bytes, hp, -⟩ | ⟨buffer, hp⟩
    · exact hline hl.replies hl.earlier
    · exact hpayload hp
    · exact hpayload hp

section Replies

variable {d : Ctx} {st : Status} {msg : List Byte}

theorem executeWith_received {f : Ctx → Ctx} (hf : ∀ x : Ctx, (f x).received = x.received)
    (d : Ctx) : (executeWith f d).received = d.received := by
  have hline : (writeLine d).2.received = d.received :=
    (Conn.received_of_log (Ctx.sysWrite_log d (simpleResponseRest d.client))).trans
      (List.append_nil _)
  have hmod : ∀ (x : Ctx) i, (x.modifyEventLoop i).received = x.received := fun x i => by
    rw [Conn.received_of_log (Ctx.modifyEventLoop_log x i)]
    exact List.append_nil _
  rw [executeWith_eq]
  split
  · exact hline
  · rw [closeAndCleanup_received, hline]
  · split_ifs
    · split
      · split
        · exact (hf _).trans hline
        · exact (hmod _ _).trans hline
        · exact (closeAndCleanup_received _).trans hline
      · exact (closeAndCleanup_received _).trans hline
      · exact hline
    · exact (hmod _ _).trans hline

theorem fillResponse_received (d : Ctx) (st : Status) (msg : List Byte) :
    (fillResponse d st msg).received = d.received :=
  (Conn.received_of_log (l := [.reply st msg]) rfl).trans (List.append_nil _)

theorem startSendList_received (d : Ctx) : (startSendList d).received = d.received := by
  have hbuild : (buildListBuffer d).2.received = d.received := by
    rw [Conn.received, Conn.received, buildListBuffer_log]
  unfold startSendList
  dsimp only
  split
  · rw [executeWith_received (f := id) fun _ => rfl, fillResponse_received, hbuild]
  · rw [Conn.received_of_log (Ctx.modifyEventLoop_log _ _)]
    exact (List.append_nil _).trans hbuild

/-- Sending a reply receives nothing. -/
theorem prepareAndSendResponse_received (d : Ctx) (st : Status) (msg : List Byte) :
    (prepareAndSendResponse d st msg).received = d.received :=
  (executeWith_received startSendList_received _).trans (fillResponse_received d st msg)

/-- A connection with its first reply chosen. -/
structure Replied (d c : Ctx) (st : Status) (msg : List Byte) : Prop where
  settled : c.toConn.Settled
  received : c.received = d.received
  verb : c.client.requestVerb = d.client.requestVerb
  filename : c.client.filename = d.client.filename
  chosen : (st, msg) ∈ c.replies
  only : st = .error ∨ d.client.requestVerb ≠ .list → c.replies = [(st, msg)]

theorem prepareAndSendResponse_replied (hr : ReplyOk (prepareAndSendResponse d st msg).toConn)
    (hd : d.freed = false) (hnil : d.replies = []) :
    Replied d (prepareAndSendResponse d st msg) st msg := by
  have hsend := fillResponse_sending d st msg
  have hline : (fillResponse d st msg).client.state = .sendOk ∨
      (fillResponse d st msg).client.state = .sendError := by
    cases st
    · exact .inl rfl
    · exact .inr rfl
  have hsteps : Steps (fillResponse d st msg) (prepareAndSendResponse d st msg) :=
    executeSimpleResponseWrite_steps hd hline
  have hprog := hsteps.progress
  obtain ⟨hsettled, hheader⟩ := hprog.settled (.inr hsend.ne.1)
  have hpre : [(st, msg)] <+: (prepareAndSendResponse d st msg).replies := by
    have hfill : (fillResponse d st msg).replies = [(st, msg)] := by
      rw [Conn.replies_of_log (l := [.reply st msg]) rfl, hnil]
      rfl
    exact hfill ▸ Conn.replies_mono hprog.log
  have hverb : (prepareAndSendResponse d st msg).client.requestVerb = d.client.requestVerb :=
    hheader.verb
  refine ⟨hsettled, prepareAndSendResponse_received d st msg, hverb, hheader.name,
    hpre.subset (List.mem_singleton_self _), fun honly => ?_⟩
  rcases hr.replies_cases with h | ⟨r, h⟩ | ⟨hv, m, m', h⟩
  · rw [h] at hpre
    cases List.prefix_nil.mp hpre
  · rw [h] at hpre ⊢
    exact (hpre.eq_of_length rfl).symm
  · -- two replies begin with OK, and the verb is LIST
    exfalso
    rw [h, List.cons_prefix_cons] at hpre
    rcases honly with rfl | hne
    · cases congrArg Prod.fst hpre.1
    · exact hne (hverb ▸ hv)

end Replies

/-! ### Requests -/

/-- The connection has left `STATE_RECV_HEADER`, or the process has come to an end. -/
def Left (c : Ctx) : Prop := c.fault = true ∨ c.toConn.Settled

/-- A connection is treated as LIST: its verb is LIST and it is answered OK. -/
def TreatedAsList (c : Conn) : Prop := c.client.requestVerb = .list ∧ (.ok, []) ∈ c.replies

/-- A connection is treated as a request with a verb and a name: it has both, and it is not
answered as a bad request. -/
def TreatedAs (c : Conn) (v : Verb) (name : Path) : Prop :=
  c.client.requestVerb = v ∧ c.client.filename = name ∧ (.error, errBadRequest) ∉ c.replies

/-- What serving a request in the context `t` comes to. -/
structure Outcome (t c : Ctx) (q : Request) : Prop where
  received : c.received = t.received
  left : Left c
  list : q = .list → TreatedAsList c.toConn
  named : ∀ v w, q.named = some (v, w) → TreatedAs c.toConn v (w.take 255)
  bad : ∀ v, q = .bad v → c.replies = [(.error, errBadRequest)]

section Serve

variable {t d c : Ctx} {st : Status} {msg : List Byte} {q : Request} {v : Verb} {w : Path}

theorem Request.named_verb (h : q.named = some (v, w)) : v ≠ .list := by
  cases q with
  | get => cases h; decide
  | put => cases h; decide
  | delete => cases h; decide
  | _ => cases h

/-- A request with a name that is answered by something else than a bad request. -/
theorem Replied.outcome (h : Replied d c st msg) (hq : q.named = some (v, w))
    (hreceived : d.received = t.received) (hv : d.client.requestVerb = v)
    (hw : d.client.filename = w.take 255) (hmsg : (st, msg) ≠ (.error, errBadRequest)) :
    Outcome t c q where
  received := h.received.trans hreceived
  left := .inr h.settled
  list := fun heq => by subst heq; cases hq
  named := fun v' w' hq' => by
    obtain ⟨rfl, rfl⟩ := Prod.mk.inj (Option.some.inj (hq.symm.trans hq'))
    refine ⟨h.verb.trans hv, h.filename.trans hw, ?_⟩
    rw [h.only (.inr (hv ▸ Request.named_verb hq)), List.mem_singleton]
    exact Ne.symm hmsg
  bad := fun v' heq => by subst heq; cases hq

theorem startSendGet_outcome (hd : d.freed = false) (hnil : d.replies = [])
    (hr : ReplyOk (startSendGet d).toConn) (hreceived : d.received = t.received)
    (hv : d.client.requestVerb = .get) (hw : d.client.filename = w.take 255) :
    Outcome t (startSendGet d) (.get w) := by
  have hopen : (d.sysOpenRead d.filepath).2.received = t.received := by
    rw [Conn.received_of_log (Ctx.sysOpenRead_log d _), hreceived]
    exact List.append_nil _
  have hreplies : (d.sysOpenRead d.filepath).2.replies = [] := by
    rw [Conn.replies_of_log (Ctx.sysOpenRead_log d _), hnil]
    rfl
  revert hr
  unfold startSendGet
  dsimp only
  split
  · intro hr
    exact (prepareAndSendResponse_replied hr hd hreplies).outcome rfl hopen hv hw (by decide)
  · split
    · intro hr
      exact (prepareAndSendResponse_replied hr hd hreplies).outcome rfl hopen hv hw (by decide)
    · intro hr
      exact (prepareAndSendResponse_replied hr hd hreplies).outcome rfl hopen hv hw (by decide)

theorem deleteRequest_outcome (hd : d.freed = false) (hnil : d.replies = [])
    (hr : ReplyOk (deleteRequest d).toConn) (hreceived : d.received = t.received)
    (hv : d.client.requestVerb = .delete) (hw : d.client.filename = w.take 255) :
    Outcome t (deleteRequest d) (.delete w) := by
  let e := d.use (.find d.client.filename)
  have hunlink : (e.sysUnlink e.filepath).2.received = t.received := by
    rw [Conn.received_of_log (Ctx.sysUnlink_log e _), show e.received = t.received from hreceived]
    exact List.append_nil _
  have hreplies : (e.sysUnlink e.filepath).2.replies = [] := by
    rw [Conn.replies_of_log (Ctx.sysUnlink_log e _), show e.replies = [] from hnil]
    rfl
  revert hr
  unfold deleteRequest
  dsimp only
  split
  · -- a `NULL` element: the process comes to its end in `strcmp`
    refine fun _ => ⟨hreceived, .inl rfl, fun heq => (by cases heq), fun v w' hq => ?_,
      fun v heq => (by cases heq)⟩
    obtain ⟨rfl, rfl⟩ := Prod.mk.inj (Option.some.inj hq)
    refine ⟨hv, hw, ?_⟩
    change _ ∉ d.replies
    rw [hnil]
    exact List.not_mem_nil
  · intro hr
    have hreplied := prepareAndSendResponse_replied (d := e) hr hd hnil
    exact hreplied.outcome rfl hreceived hv hw (by decide)
  · split_ifs
    · intro hr
      have hremove : (removeFileFromList (e.sysUnlink e.filepath).2
          (e.sysUnlink e.filepath).2.client.filename).log = (e.sysUnlink e.filepath).2.log :=
        removeFileFromList_log _ _
      refine (prepareAndSendResponse_replied hr ((removeFileFromList_freed _ _).trans hd)
        ?_).outcome rfl ?_ ?_ ?_ (by decide)
      · rw [Conn.replies, hremove]
        exact hreplies
      · rw [Conn.received, hremove]
        exact hunlink
      · rw [removeFileFromList_client]
        exact hv
      · rw [removeFileFromList_client]
        exact hw
    · intro hr
      exact (prepareAndSendResponse_replied hr hd hreplies).outcome rfl hunlink hv hw (by decide)

theorem serveRequest_outcome (ht : t.freed = false) (hnil : t.replies = [])
    (hr : ReplyOk (serveRequest t q).toConn) : Outcome t (serveRequest t q) q := by
  cases q with
  | list =>
    have h := prepareAndSendResponse_replied (d := noteRequest t .list) hr ht hnil
    exact ⟨h.received, .inr h.settled, fun _ => ⟨h.verb, h.chosen⟩, fun v w hq => (by cases hq),
      fun v heq => (by cases heq)⟩
  | bad v =>
    have h := prepareAndSendResponse_replied (d := noteRequest t (.bad v)) hr ht hnil
    exact ⟨h.received, .inr h.settled, fun heq => (by cases heq), fun v w hq => (by cases hq),
      fun _ _ => h.only (.inl rfl)⟩
  | get w => exact startSendGet_outcome ht hnil hr rfl rfl rfl
  | delete w => exact deleteRequest_outcome ht hnil hr rfl rfl rfl
  | put w =>
    have hlog : (serveRequest t (.put w)).log = t.log ++ [.modify .read] := rfl
    refine ⟨?_, .inr (.inr fun h => by cases h), fun heq => (by cases heq), fun v w' hq => ?_,
      fun v heq => (by cases heq)⟩
    · rw [Conn.received_of_log hlog]
      exact List.append_nil _
    · obtain ⟨rfl, rfl⟩ := Prod.mk.inj (Option.some.inj hq)
      refine ⟨rfl, rfl, ?_⟩
      rw [Conn.replies_of_log hlog, hnil]
      exact List.not_mem_nil

end Serve

/-! ### Streams -/

/-- What a connection has received, with what a READ event can add to it. -/
def stream (c : Ctx) : List Byte := c.received ++ ready c.script.rx

/-- The line is recognised for what it is. -/
structure RecognisedLine (c : Ctx) (line : List Byte) : Prop where
  received : c.received = line ++ [newline]
  left : Left c
  list : TreatedAsList c.toConn ↔ line = ascii "LIST"
  named : ∀ v : Verb, v.Named → ∀ name, TreatedAs c.toConn v name ↔
    ∃ w, line = nameLine v.word w ∧ name = w.take 255
  bad : line ≠ ascii "LIST" → (∀ v : Verb, v.Named → ∀ w, line ≠ nameLine v.word w) →
    c.replies = [(.error, errBadRequest)]

/-- An event decides on the header of a connection as soon as there is something to decide. -/
structure Recognised (c c' : Ctx) : Prop where
  line : newline ∈ (stream c).take (maxHeaderLen - 1) →
    RecognisedLine c' (beforeChar newline (stream c))
  tooLong : newline ∉ (stream c).take (maxHeaderLen - 1) →
    maxHeaderLen - 1 ≤ (stream c).length →
    c'.received = (stream c).take (maxHeaderLen - 1) ∧ c'.replies = [(.error, errBadRequest)]

section Events

variable {c t : Ctx}

/-- What a request is treated as shows the form of its line. -/
theorem Outcome.recognisedLine {q : Request} {line : List Byte} (h : Outcome t c q)
    (ht : t.received = line ++ [newline]) (hform : LineForm line q) : RecognisedLine c line := by
  have hbad : ∀ {v}, q = .bad v → (.error, errBadRequest) ∈ c.replies ∧ (.ok, []) ∉ c.replies := by
    intro v hq
    rw [h.bad v hq]
    exact ⟨List.mem_singleton_self _, by decide⟩
  refine ⟨h.received.trans ht, h.left, ?_, ?_, ?_⟩
  · cases hform with
    | list hline => exact iff_of_true (h.list rfl) hline
    | @named _ v w hv hq hline =>
      refine iff_of_false (fun hlist => ?_) fun heq => ?_
      · exact Request.named_verb hq ((h.named v w hq).1.symm.trans hlist.1)
      · have hsp : space ∈ line := by simp [hline, nameLine]
        rw [heq] at hsp
        revert hsp
        decide
    | bad hlist hnamed => exact iff_of_false (fun ht => (hbad rfl).2 ht.2) hlist
  · intro v hv name
    cases hform with
    | list hline =>
      refine iff_of_false (fun ht => ?_) ?_
      · have hverb : v = .list := ht.1.symm.trans (h.list rfl).1
        rcases hv with rfl | rfl | rfl <;> cases hverb
      · rintro ⟨w, hw, -⟩
        have hsp : space ∈ line := by simp [hw, nameLine]
        rw [hline] at hsp
        revert hsp
        decide
    | @named _ v' w hv' hq hline =>
      obtain ⟨hverb, hname, hreply⟩ := h.named v' w hq
      constructor
      · rintro ⟨rfl, rfl, -⟩
        exact ⟨w, hverb ▸ hline, hname⟩
      · rintro ⟨w', hw', rfl⟩
        obtain ⟨rfl, rfl⟩ := nameLine_injective hv' hv (hline.symm.trans hw')
        exact ⟨hverb, hname, hreply⟩
    | bad hlist hnamed =>
      refine iff_of_false (fun ht => ht.2.2 (hbad rfl).1) ?_
      rintro ⟨w, hw, -⟩
      exact hnamed v hv w hw
  · intro hlist hnamed
    cases hform with
    | list hline => exact absurd hline hlist
    | named hv hq hline => exact absurd hline (hnamed _ hv _)
    | bad => exact h.bad _ rfl

theorem HeaderEnd.recognises_iff {c' : Ctx} (h : HeaderEnd c c') (hok : ConnOk c)
    (hok' : ReplyOk c'.toConn) (hf : c.fault = false) (hs : c.client.state = .recvHeader)
    (hnew : newline ∉ c.received) : Recognised c c' ↔
      (newline ∈ (stream c).take (maxHeaderLen - 1) → 0 ∉ beforeChar newline (stream c)) := by
  obtain ⟨hnone, hreceived⟩ := hok.request.header hf hs
  have hlenc : c.received.length = c.client.headerLen := by rw [hok.request.len, hreceived]
  -- what the loop has read up to its end
  have hread : ∀ {t got}, Scanned c t got → newline ∉ t.received ∧
      t.received.length = t.client.headerLen ∧ stream c = t.received ++ ready t.script.rx ∧
      t.client.headerBuf = t.received := by
    intro t got h
    rw [h.received]
    refine ⟨fun hmem => ?_, ?_, ?_, ?_⟩
    · exact (List.mem_append.mp hmem).elim hnew h.line
    · rw [List.length_append, hlenc, h.len]
    · rw [stream, h.ready, List.append_assoc]
    · rw [h.buf, hreceived]
  -- without a newline at hand there is nothing to recognise
  have hidle : ∀ {t got}, Scanned c t got → t.client.headerLen < maxHeaderLen - 1 →
      ready t.script.rx = [] → ∀ {x : Ctx}, Recognised c x ↔
        (newline ∈ (stream c).take (maxHeaderLen - 1) → 0 ∉ beforeChar newline (stream c)) := by
    intro t got h hlen hready x
    obtain ⟨hno, hlent, hstream, -⟩ := hread h
    rw [hready, List.append_nil] at hstream
    have hno' : newline ∉ (stream c).take (maxHeaderLen - 1) := by
      rw [hstream]
      exact fun hmem => hno (List.mem_of_mem_take hmem)
    refine iff_of_true ⟨fun hmem => absurd hmem hno', fun _ hle => ?_⟩
      fun hmem => absurd hmem hno'
    rw [hstream, hlent] at hle
    exact absurd hlen (Nat.not_lt.mpr hle)
  cases h with
  | @line t got rest h hlen hr hready =>
    obtain ⟨hno, hlent, hstream, hbuf⟩ := hread h
    rw [hready] at hstream
    obtain ⟨htake, hbefore⟩ := first_newline hstream (hlent ▸ hlen) hno
    have hrec : (storeHeader t newline).received = t.received ++ [newline] :=
      storeHeader_received hr
    have hiff : Recognised c (parseHeaderAndTransition (storeHeader t newline)) ↔
        RecognisedLine (parseHeaderAndTransition (storeHeader t newline)) t.received := by
      constructor
      · intro h
        exact hbefore ▸ h.line htake
      · exact fun h => ⟨fun _ => hbefore.symm ▸ h, fun hno => absurd htake hno⟩
    have himp : (newline ∈ (stream c).take (maxHeaderLen - 1) →
        0 ∉ beforeChar newline (stream c)) ↔ 0 ∉ t.received := by
      rw [hbefore]
      exact ⟨fun h => h htake, fun h _ => h⟩
    rw [hiff, himp]
    rw [parseHeaderAndTransition_eq] at hok' ⊢
    have hbuf' : (storeHeader t newline).client.headerBuf = t.received ++ [newline] := by
      rw [← hbuf]
      rfl
    rw [hbuf'] at hok' ⊢
    by_cases h0 : 0 ∈ t.received
    · -- the parser finds no newline and leaves the connection as it is
      rw [(requestOf_newline_eq_none (requestOf_eq_none hno)).mpr h0]
      refine iff_of_false (fun hrec => ?_) (fun h => h h0)
      rcases hrec.left with hfault | hfreed | hstate
      · have hglob : t.fault = false := h.globals ▸ hf
        cases hglob.symm.trans hfault
      · cases h.freed.symm.trans hfreed
      · exact hstate h.state
    · rw [requestOf_line hno h0] at hok' ⊢
      have hnil : (storeHeader t newline).replies = [] := by
        rw [Conn.replies_of_log (a := t.toConn) (l := [.read (t.sysRead 1).1]) rfl, h.replies,
          (hok.reply.silent (.inl hs)).2]
        rfl
      have hout := serveRequest_outcome (t := storeHeader t newline) h.freed hnil hok'
      exact iff_of_true (hout.recognisedLine hrec (requestOfLine_form _)) h0
  | @tooLong t got h hlen =>
    obtain ⟨hno, hlent, hstream, hbuf⟩ := hread h
    have hlen' : t.received.length = maxHeaderLen - 1 := by
      have hroom := h.room (hok.request.len ▸ hok.request.room)
      omega
    have htake : (stream c).take (maxHeaderLen - 1) = t.received := by
      rw [hstream, ← hlen', List.take_left]
    have hnil : t.replies = [] := h.replies.trans (hok.reply.silent (.inl hs)).2
    have hreplied := prepareAndSendResponse_replied hok' h.freed hnil
    rw [htake]
    exact iff_of_true ⟨fun hmem => absurd (htake ▸ hmem) hno,
      fun _ _ => ⟨hreplied.received.trans htake.symm, hreplied.only (.inl rfl)⟩⟩
      fun hmem => absurd hmem hno
  | drained h hlen hr hready => exact hidle h hlen hready
  | closed h hlen hready => exact hidle h hlen hready

theorem handleReadEvent_recognised_iff (hok : ConnOk c) (hc : c.freed = false)
    (hf : c.fault = false) (hs : c.client.state = .recvHeader) (hnew : newline ∉ c.received) :
    Recognised c (handleReadEvent c) ↔
      (newline ∈ (stream c).take (maxHeaderLen - 1) → 0 ∉ beforeChar newline (stream c)) := by
  have heq : handleReadEvent c = readHeader c := by
    unfold handleReadEvent
    rw [hs]
  have hok' := (connOk_stable.toKept.steps (handleReadEvent_steps hc hf) hok).reply
  rw [heq] at hok' ⊢
  exact (readHeader_end hc hs).recognises_iff hok hok' hf hs hnew

end Events

/-- **Recognition of request lines.** The READ event that brings the first newline, or the 1023rd
byte without one, decides: at once, on the bytes before the newline, and by their form alone;
exactly if no NUL is among those bytes. -/
theorem recognised_iff {s : Server} (hs : Reachable s) (hfault : s.fault = false) {conn : Conn}
    (hmem : conn ∈ s.conns) (hlive : conn.freed = false)
    (hstate : conn.client.state = .recvHeader) (hnew : newline ∉ conn.received) :
    Recognised (s.ctx conn) (handleReadEvent (s.ctx conn)) ↔
      (newline ∈ (stream (s.ctx conn)).take (maxHeaderLen - 1) →
        0 ∉ beforeChar newline (stream (s.ctx conn))) :=
  handleReadEvent_recognised_iff (connOk_stable.reachable hs conn hmem) hlive hfault hstate hnew

theorem recognised_put : ∃ conn ∈ (arrived (ascii "PUT a b\n") []).conns[0]?,
    TreatedAs (handleReadEvent ((arrived (ascii "PUT a b\n") []).ctx conn)).toConn .put
      (ascii "a b") := by
  obtain ⟨conn, hi, hlive, hstate, hnew, hnl, h0, hline⟩ :
      ∃ conn ∈ (arrived (ascii "PUT a b\n") []).conns[0]?, conn.freed = false ∧
        conn.client.state = .recvHeader ∧ newline ∉ conn.received ∧
        newline ∈ (stream ((arrived (ascii "PUT a b\n") []).ctx conn)).take (maxHeaderLen - 1) ∧
        0 ∉ beforeChar newline (stream ((arrived (ascii "PUT a b\n") []).ctx conn)) ∧
        beforeChar newline (stream ((arrived (ascii "PUT a b\n") []).ctx conn))
          = nameLine (ascii "PUT") (ascii "a b") := by decide +kernel
  have h := (recognised_iff (arrived_reachable _ _) (by decide +kernel)
    (List.mem_of_getElem? hi) hlive hstate hnew).mpr fun _ => h0
  exact ⟨conn, hi, ((h.line hnl).named .put (.inr (.inl rfl)) _).mpr ⟨_, hline, by decide⟩⟩

/-- The line `LIST`, a NUL and a newline are read, and nothing happens. -/
theorem not_recognised_nul : ¬ ∀ s, Reachable s → s.fault = false → ∀ conn ∈ s.conns,
    conn.freed = false → conn.client.state = .recvHeader → newline ∉ conn.received →
    Recognised (s.ctx conn) (handleReadEvent (s.ctx conn)) := by
  intro h
  obtain ⟨conn, hi, hlive, hstate, hnew, hnl, hfault', hlive', hstate'⟩ :
      ∃ conn ∈ (arrived (ascii "LIST" ++ [0, newline]) []).conns[0]?, conn.freed = false ∧
        conn.client.state = .recvHeader ∧ newline ∉ conn.received ∧
        newline ∈ (stream ((arrived (ascii "LIST" ++ [0, newline]) []).ctx conn)).take
          (maxHeaderLen - 1) ∧
        (handleReadEvent ((arrived (ascii "LIST" ++ [0, newline]) []).ctx conn)).fault = false ∧
        (handleReadEvent ((arrived (ascii "LIST" ++ [0, newline]) []).ctx conn)).freed = false ∧
        (handleReadEvent ((arrived (ascii "LIST" ++ [0, newline]) []).ctx conn)).client.state
          = .recvHeader := by decide +kernel
  have hrec := (h _ (arrived_reachable (ascii "LIST" ++ [0, newline]) []) (by decide +kernel) conn
    (List.mem_of_getElem? hi) hlive hstate hnew).line hnl
  rcases hrec.left with hfault | hfreed | hne
  · cases hfault'.symm.trans hfault
  · cases hlive'.symm.trans hfreed
  · exact hne hstate'

end FileServer
