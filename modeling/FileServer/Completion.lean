/-
  How a reply comes to its end.

  The epoll backend reports room in a socket once.  A handler that returns with a part
  of its reply unsent relies on a later report: it must have registered the descriptor
  again behind its last write, or that write must have come up short, so that the kernel
  has room to report (`reply_parked`).  From there each report moves a reply, and at the
  latest the report behind its last byte closes the connection (`reply_completed`).
-/
import FileServer.Sequential

namespace FileServer

open Loop

/-! ### Writes that come up short -/

/-- A write of `count` bytes took less: the socket is full. -/
def WriteResult.Short (count : Nat) : WriteResult → Prop
  | .wrote n => n < count
  | .eagain => True
  | .err => False

/-- An event that started with the log `l₀` has written to the socket. -/
def HasWritten (l₀ l : List Call) : Prop :=
  ∃ l₁ bs r, l₀ <+: l₁ ∧ l₁ ++ [.write bs r] <+: l

/-- A reply was written to the socket, and a part of it is left for a later report. -/
inductive Parked (c c' : Conn) : Prop
  /-- The descriptor was registered for WRITE behind the last write. -/
  | rearmed (hi : c'.interest = some .write) (hwrite : HasWritten c.log c'.log)
      (hlog : EndsWith c.log (.modify .write) c'.log)
      (htx : c'.script.tx.length ≤ c.script.tx.length - 1)
  /-- The last call is a write that found the socket full; the registration is as it was. -/
  | blocked {bs : List Byte} {r : WriteResult} (hi : c'.interest = c.interest)
      (hlog : EndsWith c.log (.write bs r) c'.log) (hshort : r.Short bs.length)
      (htx : c'.script.tx.length ≤ c.script.tx.length - 1)

/-- Between the start of an event in `c` and a write. -/
structure Onto (c t : Ctx) : Prop where
  log : c.log <+: t.log
  interest : t.interest = c.interest
  tx : t.script.tx.length ≤ c.script.tx.length

/-- Behind a write in the event that started in `c`. -/
structure BehindWrite (c t : Ctx) : Prop where
  written : HasWritten c.log t.log
  tx : t.script.tx.length ≤ c.script.tx.length - 1

section Handlers

variable {c t : Ctx}

theorem Onto.refl (c : Ctx) : Onto c c := ⟨List.prefix_rfl, rfl, Nat.le_refl _⟩

theorem Onto.sysWrite (h : Onto c t) (bs : List Byte) : BehindWrite c (t.sysWrite bs).2 := by
  refine ⟨⟨t.log, bs, _, h.log, List.prefix_rfl⟩, ?_⟩
  have hle := h.tx
  rw [sysWrite_tx, List.length_tail]
  omega

/-- The write of `bs` in `t` is the last one of the event. -/
theorem Onto.blocked (h : Onto c t) {bs : List Byte}
    (hshort : (t.sysWrite bs).1.Short bs.length) (f : Client → Client) :
    Parked c.toConn ((t.sysWrite bs).2.setClient f).toConn :=
  .blocked h.interest ⟨t.log, h.log, rfl⟩ hshort (h.sysWrite bs).tx

theorem Onto.eagain (h : Onto c t) {bs : List Byte} (hw : (t.sysWrite bs).1 = .eagain) :
    Parked c.toConn (t.sysWrite bs).2.toConn :=
  h.blocked (by rw [hw]; trivial) id

namespace BehindWrite

theorem log (h : BehindWrite c t) : c.log <+: t.log := by
  obtain ⟨l, bs, r, hpre, hlast⟩ := h.written
  exact (hpre.trans (List.prefix_append _ _)).trans hlast

theorem rearmed (h : BehindWrite c t) : Parked c.toConn (t.modifyEventLoop .write).toConn := by
  obtain ⟨l, bs, r, hpre, hlast⟩ := h.written
  exact .rearmed rfl ⟨l, bs, r, hpre, hlast.trans (List.prefix_append _ _)⟩
    ⟨t.log, h.log, rfl⟩ h.tx

theorem setClient (h : BehindWrite c t) (f : Client → Client) : BehindWrite c (t.setClient f) :=
  ⟨h.written, h.tx⟩

end BehindWrite

/-- The status line of an ERROR reply. -/
theorem executeWith_error_parked (f : Ctx → Ctx) (h : Onto c t)
    (hs : t.client.state = .sendError) :
    (executeWith f t).freed = true ∨ Parked c.toConn (executeWith f t).toConn := by
  rw [executeWith_eq]
  cases hw : (writeLine t).1 with
  | eagain => exact .inr (h.eagain hw)
  | err => exact .inl rfl
  | wrote n =>
    have hline : BehindWrite c (sentLine t n) := (h.sysWrite _).setClient _
    dsimp only
    split_ifs
    · rw [hs]
      exact .inl rfl
    · exact .inr hline.rearmed

theorem executeSimpleResponseWrite_parked
    (hs : c.client.state = .sendOk ∨ c.client.state = .sendError) :
    (executeSimpleResponseWrite c).freed = true ∨
      Parked c.toConn (executeSimpleResponseWrite c).toConn := by
  rcases hs with hs | hs
  swap
  · exact executeWith_error_parked startSendList (.refl c) hs
  rw [executeSimpleResponseWrite_eq, executeWith_eq]
  cases hw : (writeLine c).1 with
  | eagain => exact .inr ((Onto.refl c).eagain hw)
  | err => exact .inl rfl
  | wrote n =>
    have hline : BehindWrite c (sentLine c n) := ((Onto.refl c).sysWrite _).setClient _
    dsimp only
    split_ifs
    · rw [hs]
      cases c.client.requestVerb with
      | list =>
        -- the payload is sent by the events to come, or replaced by a second reply
        dsimp only
        unfold startSendList
        dsimp only
        have hlist : BehindWrite c (buildListBuffer (sentLine c n)).2 := by
          refine ⟨?_, ?_⟩
          · rw [buildListBuffer_log]
            exact hline.written
          · rw [buildListBuffer_tx]
            exact hline.tx
        cases (buildListBuffer (sentLine c n)).1 with
        | some buffer => exact .inr (hlist.setClient _).rearmed
        | none =>
          have honto : Onto c (fillResponse (buildListBuffer (sentLine c n)).2 .error
              errBadRequest) :=
            ⟨hlist.log.trans (List.prefix_append _ _), buildListBuffer_interest _,
              hlist.tx.trans (Nat.sub_le _ _)⟩
          exact executeWith_error_parked id honto rfl
      | get => exact .inr (hline.setClient _).rearmed
      | _ => exact .inl rfl
    · exact .inr hline.rearmed

/-- Where the buffer holds what is to be sent, a part of a short response is a short write. -/
theorem length_simpleResponseRest {k : Client}
    (hbuf : k.simpleResponseLen ≤ k.simpleResponseBuf.length) :
    (simpleResponseRest k).length = k.simpleResponseLen - k.simpleResponseSent := by
  rw [simpleResponseRest, List.length_take, List.length_drop]
  omega

theorem length_copyAt_zero (buffer bs : List Byte) :
    bs.length ≤ (copyAt buffer 0 bs).length := by
  rw [copyAt, List.length_append, List.length_append]
  omega

theorem loadGetSize_buf (hr : ReplyOk c.toConn) (hs : c.client.state = .sendGetSize) :
    (loadGetSize c).client.simpleResponseLen = sizeLen ∧
      (loadGetSize c).client.simpleResponseSent < sizeLen ∧
      sizeLen ≤ (loadGetSize c).client.simpleResponseBuf.length := by
  rcases (hr.size hs).2 with ⟨hlen, -⟩ | ⟨hlen, hsent, hbuf⟩
  · rw [loadGetSize_of_zero hlen]
    refine ⟨rfl, Nat.zero_lt_succ 7, ?_⟩
    have hcopy := length_copyAt_zero c.client.simpleResponseBuf (sizeBytes c.client.fileSize)
    rwa [length_sizeBytes] at hcopy
  · have heq : loadGetSize c = c := if_neg (by omega)
    rw [heq]
    refine ⟨hlen, hsent, ?_⟩
    have hle := congrArg List.length hbuf
    rw [List.length_take, length_sizeBytes] at hle
    show 8 ≤ c.client.simpleResponseBuf.length
    omega

theorem sendGetSize_parked (hr : ReplyOk c.toConn) (hs : c.client.state = .sendGetSize) :
    (sendGetSize c).freed = true ∨ Parked c.toConn (sendGetSize c).toConn := by
  obtain ⟨hlen, hsent, hbuf⟩ := loadGetSize_buf hr hs
  have honto : Onto c (loadGetSize c) := by
    unfold loadGetSize
    split_ifs <;> exact ⟨List.prefix_rfl, rfl, Nat.le_refl _⟩
  have hrest := length_simpleResponseRest (hlen ▸ hbuf)
  unfold sendGetSize
  dsimp only
  generalize loadGetSize c = t at hlen hsent hbuf honto hrest ⊢
  cases hw : (t.sysWrite (simpleResponseRest t.client)).1 with
  | eagain => exact .inr (honto.eagain hw)
  | err => exact .inl rfl
  | wrote n =>
    have hle := Ctx.sysWrite_le t _ hw
    dsimp only
    split_ifs with hall
    · exact .inr (((honto.sysWrite _).setClient _).setClient _).rearmed
    · have hshort : (t.sysWrite (simpleResponseRest t.client)).1.Short
          (simpleResponseRest t.client).length := by
        have hne : t.client.simpleResponseSent + n ≠ t.client.simpleResponseLen := hall
        rw [hw]
        show n < (simpleResponseRest t.client).length
        omega
      exact .inr (honto.blocked hshort _)

theorem sendListData_parked (hr : ReplyOk c.toConn) (hc : c.freed = false)
    (hs : c.client.state = .sendListData) :
    (sendListData c).freed = true ∨ Parked c.toConn (sendListData c).toConn := by
  obtain ⟨buffer, hbuf, hlen, hsent, -⟩ := hr.list hs
  have hrest : (listRest c.client).length = c.client.listLen - c.client.listSent := by
    have hsome : c.client.listBuf = some buffer := hbuf hc
    rw [listRest, hsome, Option.getD_some, List.length_take, List.length_drop]
    omega
  unfold sendListData
  dsimp only
  cases hw : (writeList c).1 with
  | eagain =>
    unfold writeList listRest at hw
    rw [hw]
    exact .inr ((Onto.refl c).eagain hw)
  | err =>
    unfold writeList listRest at hw
    rw [hw]
    exact .inl rfl
  | wrote n =>
    have hle := Ctx.sysWrite_le c _ hw
    unfold writeList listRest at hw
    rw [hw]
    dsimp only
    split_ifs with hall
    · exact .inl rfl
    · have hshort : (c.sysWrite (listRest c.client)).1.Short (listRest c.client).length := by
        have hne : c.client.listSent + n ≠ c.client.listLen := hall
        rw [show (c.sysWrite (listRest c.client)).1 = .wrote n from hw]
        show n < (listRest c.client).length
        omega
      exact .inr ((Onto.refl c).blocked hshort _)

/-- Between two passes of the loop of `send_get_data`. -/
structure Loading (c t : Ctx) : Prop where
  down : Downloading c t
  onto : Onto c t
  le : t.client.bytesTransferred ≤ t.client.fileSize

theorem sendGetDataPass_parked (h : Loading c t) :
    match sendGetDataPass t with
    | .again t' => Loading c t'
    | .leave t' => Loading c t' ∧ ¬ t'.client.bytesTransferred < t'.client.fileSize
    | .ret t' => t'.freed = true ∨ Parked c.toConn t'.toConn := by
  have hdown := sendGetDataPass_awake h.down
  unfold sendGetDataPass at hdown ⊢
  dsimp only at hdown ⊢
  split_ifs at hdown ⊢ with hlen
  · cases hh : t.client.fileFd with
    | none => exact .inl rfl
    | some f =>
      have hread : Onto c (readData t f).2 := by
        refine ⟨h.onto.log, h.onto.interest, ?_⟩
        have htx : (readData t f).2.script.tx = t.script.tx := Script.file_tx _
        exact htx ▸ h.onto.tx
      rw [hh] at hdown
      dsimp only at hdown ⊢
      cases hp : (readData t f).1 with
      | none =>
        simp only [readData, dataRoom] at hp
        rw [hp]
        exact .inl rfl
      | some bs =>
        have hroom : bs.length ≤ t.client.fileSize - t.client.bytesTransferred :=
          (sysPread_length hp).trans (Nat.min_le_right _ _)
        simp only [readData, dataRoom] at hp
        rw [hp] at hdown ⊢
        cases bs with
        | nil => exact .inl rfl
        | cons b bs =>
          have hbehind := hread.sysWrite (b :: bs)
          dsimp only at hdown ⊢
          cases hw : ((readData t f).2.sysWrite (b :: bs)).1 with
          | eagain =>
            have hblocked := hread.eagain hw
            simp only [readData, dataRoom] at hw
            rw [hw]
            exact .inr hblocked
          | err =>
            simp only [readData, dataRoom] at hw
            rw [hw]
            exact .inl rfl
          | wrote n =>
            have hle := Ctx.sysWrite_le _ _ hw
            have hwrote := hw
            simp only [readData, dataRoom] at hw
            rw [hw] at hdown ⊢
            dsimp only at hdown ⊢
            split_ifs at hdown ⊢ with hn
            · exact .inr (hread.blocked (by rw [hwrote]; exact hn) _)
            · refine ⟨hdown, ⟨hbehind.log, hread.interest, hbehind.tx.trans (Nat.sub_le _ _)⟩, ?_⟩
              show t.client.bytesTransferred + n ≤ t.client.fileSize
              omega
  · exact ⟨h, hlen⟩

theorem sendGetData_parked (hr : ReplyOk c.toConn) (hc : c.freed = false)
    (hs : c.client.state = .sendGetData) :
    (sendGetData c).freed = true ∨ Parked c.toConn (sendGetData c).toConn := by
  obtain ⟨t, ht, heq, hfin⟩ := exec_spec sendGetDataPass_decreases (I := Loading c)
    (fun t t' ht hpass => by
      have hagain := sendGetDataPass_parked ht
      rw [hpass] at hagain
      exact hagain)
    (s := c) ⟨⟨hc, hs, rfl⟩, .refl c, (hr.data hs).1⟩
  have hpass := sendGetDataPass_parked ht
  unfold sendGetData
  rw [heq]
  cases hp : sendGetDataPass t with
  | again t' => rw [hp] at hfin; exact hfin.elim
  | ret t' => rw [hp] at hpass; exact hpass
  | leave t' =>
    rw [hp] at hpass
    obtain ⟨hload, hlen⟩ := hpass
    have hall : t'.client.bytesTransferred = t'.client.fileSize := by
      have hle := hload.le
      omega
    left
    show (finishGet t').freed = true
    rw [finishGet, if_pos hall]
    rfl

/-- **The ways out of a WRITE event.** -/
theorem handleWriteEvent_parked (hr : ReplyOk c.toConn) (hc : c.freed = false)
    (hs : c.client.state.Sending) :
    (handleWriteEvent c).freed = true ∨ Parked c.toConn (handleWriteEvent c).toConn := by
  unfold handleWriteEvent
  rcases hs with hs | hs | hs | hs | hs
  · rw [hs]
    exact executeSimpleResponseWrite_parked (.inl hs)
  · rw [hs]
    exact executeSimpleResponseWrite_parked (.inr hs)
  · rw [hs]
    exact sendGetSize_parked hr hs
  · rw [hs]
    exact sendGetData_parked hr hc hs
  · rw [hs]
    exact sendListData_parked hr hc hs

end Handlers

/-- **Edge-triggered write discipline.** Whenever the handling of a WRITE event returns with the
connection still open, the reply was written up to the point where the socket is full, or the
descriptor was registered again behind the last write: no room is left without a report to come. -/
theorem reply_parked {s : Server} (hs : Reachable s) : ∀ conn ∈ s.conns, conn.freed = false →
    conn.client.state.Sending → (handleWriteEvent (s.ctx conn)).freed = true ∨
      Parked conn (handleWriteEvent (s.ctx conn)).toConn := by
  intro conn hmem hlive hsend
  have hok : ConnOk (s.ctx conn) := connOk_stable.reachable hs conn hmem
  exact handleWriteEvent_parked hok.reply hlive hsend

/-- A LIST whose client takes one byte at a time, up to its first event. -/
def slowListing : List Action :=
  [.accept 5 ⟨pushBack (ascii "LIST\n") [], List.replicate 13 (.room 1), [], []⟩, .event 5 .onRead]

theorem slowListing_reachable : Reachable ((Server.boot bareDisk).run slowListing) :=
  ⟨bareDisk, slowListing, bareDisk_fresh, rfl⟩

theorem reply_parked_slowListing : ∃ conn ∈ ((Server.boot bareDisk).run slowListing).conns[0]?,
    Parked conn
      (handleWriteEvent (((Server.boot bareDisk).run slowListing).ctx conn)).toConn := by
  obtain ⟨conn, hi, hlive, hsend, hopen⟩ :
      ∃ conn ∈ ((Server.boot bareDisk).run slowListing).conns[0]?, conn.freed = false ∧
        conn.client.state = .sendOk ∧
        (handleWriteEvent (((Server.boot bareDisk).run slowListing).ctx conn)).freed = false := by
    decide +kernel
  have hparked := reply_parked slowListing_reachable conn (List.mem_of_getElem? hi) hlive
    (.inl hsend)
  exact ⟨conn, hi, hparked.resolve_left (by simp [hopen])⟩

/-! ### Sockets that take a byte at least -/

/-- Every write to the socket takes a byte at least, and no read of the file fails. -/
structure Willing (s : Script) : Prop where
  tx : ∀ x ∈ s.tx, ∃ n, x = .room (n + 1)
  fx : ∀ x ∈ s.fx, x ≠ .fail ∧ x ≠ .short 0

namespace Willing

variable {s : Script}

theorem file (h : Willing s) : Willing s.file.2 := by
  refine ⟨by simpa using h.tx, ?_⟩
  intro x hx
  unfold Script.file at hx
  split at hx
  · exact h.fx x hx
  · rename_i y fx heq
    exact h.fx x (heq ▸ List.mem_cons_of_mem _ hx)

theorem write (h : Willing s) (n : Nat) : Willing (s.write n).2 ∧ (s.write n).1 ≠ .err := by
  obtain ⟨htx, hfx⟩ := h
  unfold Script.write
  split
  · exact ⟨⟨htx, hfx⟩, by simp⟩
  · rename_i m tx heq
    exact ⟨⟨fun x hx => htx x (heq ▸ List.mem_cons_of_mem _ hx), hfx⟩, by simp⟩
  · rename_i tx heq
    obtain ⟨n, hn⟩ := htx .eagain (heq ▸ List.mem_cons_self ..)
    cases hn
  · rename_i tx heq
    obtain ⟨n, hn⟩ := htx .err (heq ▸ List.mem_cons_self ..)
    cases hn

/-- A write that was offered something took a byte, unless the script is used up. -/
theorem wrote_pos (h : Willing s) {k n : Nat} (hk : 0 < k) (hw : (s.write k).1 = .wrote n) :
    0 < n := by
  unfold Script.write at hw
  split at hw
  · cases hw
  · rename_i m tx heq
    obtain ⟨l, hl⟩ := h.tx (.room m) (heq ▸ List.mem_cons_self ..)
    obtain rfl := TxItem.room.inj hl
    obtain rfl := WriteResult.wrote.inj hw
    omega
  · cases hw
  · cases hw

theorem write_eagain (h : Willing s) {k : Nat} (hw : (s.write k).1 = .eagain) : s.tx = [] := by
  unfold Script.write at hw
  split at hw
  · assumption
  · cases hw
  · rename_i tx heq
    obtain ⟨n, hn⟩ := h.tx .eagain (heq ▸ List.mem_cons_self ..)
    cases hn
  · cases hw

end Willing

/-- The bytes sent and the writes to come: what a write takes from the one it adds to the other. -/
def Conn.credit (c : Conn) : Nat := c.sent.length + c.script.tx.length

section Steps

variable {c c' : Ctx}

theorem sysWrite_credit (h : Willing c.script) {bs : List Byte} (hbs : bs ≠ []) {n : Nat}
    (hw : (c.sysWrite bs).1 = .wrote n) : c.credit ≤ (c.sysWrite bs).2.credit := by
  have hpos := h.wrote_pos (List.length_pos_iff.mpr hbs) hw
  have hle := Ctx.sysWrite_le c _ hw
  rw [Conn.credit, Conn.credit, sysWrite_sent hw, sysWrite_tx, List.length_append,
    List.length_take, List.length_tail]
  omega

theorem Conn.credit_congr {a b : Conn} (hsent : b.sent = a.sent)
    (htx : b.script.tx = a.script.tx) : b.credit = a.credit := by
  rw [Conn.credit, Conn.credit, hsent, htx]

theorem LineOk.rest_ne_nil {rs : List (Status × List Byte)} {st : Status} {msg : List Byte}
    (h : LineOk c.toConn rs st msg) : simpleResponseRest c.client ≠ [] := by
  have hlen := length_simpleResponseRest (k := c.client) (by rw [h.len, h.buf])
  have hlt := h.lt
  rw [h.len] at hlen
  apply List.ne_nil_of_length_pos
  omega

theorem ReplyOk.size_rest_ne_nil (h : ReplyOk c.toConn) (hs : c.client.state = .sendGetSize)
    (hl : c.client.simpleResponseLen ≠ 0) : simpleResponseRest c.client ≠ [] := by
  obtain ⟨hlen, hsent, hbuf⟩ := (h.size hs).2.resolve_left fun h0 => hl h0.1
  have hle := congrArg List.length hbuf
  rw [List.length_take, length_sizeBytes] at hle
  have hrest := length_simpleResponseRest (k := c.client) (by omega)
  apply List.ne_nil_of_length_pos
  omega

theorem ReplyOk.listRest_ne_nil (h : ReplyOk c.toConn) (hc : c.freed = false)
    (hs : c.client.state = .sendListData) : listRest c.client ≠ [] := by
  obtain ⟨buffer, hbuf, hlen, hsent, -⟩ := h.list hs
  have hsome : c.client.listBuf = some buffer := hbuf hc
  apply List.ne_nil_of_length_pos
  rw [listRest, hsome, Option.getD_some, List.length_take, List.length_drop]
  omega

theorem Send.willing (h : Send c c') (hr : ReplyOk c.toConn) (hc : c.freed = false)
    (hw : Willing c.script) : Willing c'.script ∧ c.credit ≤ c'.credit := by
  have hline : c.client.state = .sendOk ∨ c.client.state = .sendError →
      simpleResponseRest c.client ≠ [] := by
    intro hs
    obtain ⟨rs, st, msg, hline⟩ := hr.line hs
    exact hline.rest_ne_nil
  -- behind the write the socket is left alone
  have hwrote : ∀ {d x : Ctx} {bs : List Byte} {n : Nat} {l : List Call}, Willing d.script →
      d.credit = c.credit → bs ≠ [] → (d.sysWrite bs).1 = .wrote n →
      x.log = (d.sysWrite bs).2.log ++ l → l.flatMap Call.sent = [] →
      x.script.tx = (d.sysWrite bs).2.script.tx → x.script.fx = (d.sysWrite bs).2.script.fx →
      Willing x.script ∧ c.credit ≤ x.credit := by
    intro d x bs n l hd hcredit hbs hn hlog hl htx hfx
    have hw' := (hd.write bs.length).1
    refine ⟨⟨?_, ?_⟩, ?_⟩
    · rw [htx]
      exact hw'.tx
    · rw [hfx]
      exact hw'.fx
    · have hsent : x.sent = (d.sysWrite bs).2.sent := by
        rw [Conn.sent_of_log hlog, hl, List.append_nil]
      rw [← hcredit, Conn.credit_congr hsent htx]
      exact sysWrite_credit hd hbs hn
  cases h with
  | linePart hs hn =>
    exact hwrote (l := [.modify .write]) hw rfl (hline hs) hn rfl rfl rfl rfl
  | lineGet hs hv hn =>
    exact hwrote (l := [.modify .write]) hw rfl (hline (.inl hs)) hn.write rfl rfl rfl rfl
  | @lineList n buffer hs hv hn hb =>
    refine hwrote (l := [.modify .write]) hw rfl (hline (.inl hs)) hn.write ?_ rfl
      (buildListBuffer_tx _) ?_
    · show (buildListBuffer (sentLine c n)).2.log ++ [.modify .write] = _
      rw [buildListBuffer_log]
      rfl
    · show (buildListBuffer (sentLine c n)).2.script.fx = _
      unfold buildListBuffer Ctx.use
      dsimp only
      split
      · rfl
      · exact Script.alloc_fx _
  | loadSize hs hl =>
    rw [loadGetSize_of_zero hl]
    exact ⟨hw, Nat.le_refl _⟩
  | sizePart hs hl hn =>
    exact hwrote (l := []) hw rfl (hr.size_rest_ne_nil hs hl) hn (List.append_nil _).symm rfl rfl
      rfl
  | sizeAll hs hl hn =>
    exact hwrote (l := [.modify .write]) hw rfl (hr.size_rest_ne_nil hs hl) hn.write rfl rfl rfl
      rfl
  | @data f bs n hs hlen hh hp hne hn =>
    have hread : (readData c f).2.credit = c.credit :=
      Conn.credit_congr (a := c.toConn) (b := (readData c f).2.toConn) rfl (Script.file_tx _)
    exact hwrote (l := []) hw.file hread hne hn (List.append_nil _).symm rfl rfl rfl
  | listPart hs hn =>
    exact hwrote (l := []) hw rfl (hr.listRest_ne_nil hc hs) hn (List.append_nil _).symm rfl rfl
      rfl

theorem Quiet.willing (h : Quiet c c') (hw : Willing c.script) :
    Willing c'.script ∧ c.credit ≤ c'.credit := by
  cases h with
  | @read n =>
    refine ⟨⟨?_, ?_⟩, ?_⟩
    · show ∀ x ∈ (c.script.read n).2.tx, _
      rw [Script.read_tx]
      exact hw.tx
    · show ∀ x ∈ (c.script.read n).2.fx, _
      rw [Script.read_fx]
      exact hw.fx
    · have hsent : (c.sysRead n).2.sent = c.sent := by
        rw [Conn.sent_of_log (Ctx.sysRead_log c n)]
        exact List.append_nil _
      rw [Conn.credit_congr hsent (Script.read_tx ..)]
  | @write bs he =>
    refine ⟨(hw.write _).1, ?_⟩
    have htx : c.script.tx = [] := hw.write_eagain he
    have hsent : (c.sysWrite bs).2.sent = c.sent :=
      (sysWrite_sameReply fun n => by rw [he]; simp).sent
    rw [Conn.credit_congr hsent (by rw [sysWrite_tx, htx]; rfl)]
  | pread f count off =>
    have hread : (c.sysPread f count off).2.credit = c.credit :=
      Conn.credit_congr (a := c.toConn) (b := (c.sysPread f count off).2.toConn) rfl
        (Script.file_tx _)
    exact ⟨hw.file, Nat.le_of_eq hread.symm⟩

/-- A GET that was accepted has the bytes of its file on the disk. -/
def OnDisk (c : Ctx) : Prop := Accepts c.toConn .get →
  ∃ f body, FileSent c.toConn f body.length body ∧ c.disk.bytes f = body

/-- A file that has bytes left gives some of them. -/
theorem sysPread_ne_nil (hw : Willing c.script) {f : Handle} {count off : Nat}
    (hcount : 0 < count) (hoff : off < (c.disk.bytes f).length) :
    (c.sysPread f count off).1 ≠ none ∧ (c.sysPread f count off).1 ≠ some [] := by
  cases f with
  | dir d => exact absurd hoff (Nat.not_lt_zero _)
  | file l gen =>
    have hread : ∀ k, 0 < k → ((c.disk.content l gen).drop off).take k ≠ [] := by
      intro k hk
      apply List.ne_nil_of_length_pos
      have hlen : off < (c.disk.content l gen).length := hoff
      rw [List.length_take, List.length_drop]
      omega
    unfold Ctx.sysPread
    dsimp only
    split
    · exact ⟨by simp [Disk.pread], by simpa [Disk.pread] using hread count hcount⟩
    · rename_i n heq
      have hn : n ≠ 0 := by
        rintro rfl
        unfold Script.file at heq
        split at heq
        · cases heq
        · rename_i x fx hfx
          exact (hw.fx x (hfx ▸ List.mem_cons_self ..)).2 heq
      exact ⟨by simp [Disk.pread], by simpa [Disk.pread] using hread (min n count) (by omega)⟩
    · rename_i heq
      unfold Script.file at heq
      split at heq
      · cases heq
      · rename_i x fx hfx
        exact absurd heq (hw.fx x (hfx ▸ List.mem_cons_self ..)).1

/-- **Closing.** A connection whose socket takes its bytes is closed when its reply is sent. -/
theorem Close.done_of_willing (h : Close c c') (hr : ReplyOk c.toConn) (hw : Willing c.script)
    (hdisk : OnDisk c) (hc : c.freed = false) (hs : c.client.state.Sending) :
    c'.client.state = .done := by
  have hwrite : ∀ bs, (c.sysWrite bs).1 ≠ .err := fun bs => (hw.write _).2
  have hget : c.client.state = .sendGetData → ∃ f body,
      FileSent c.toConn f body.length body ∧ c.disk.bytes f = body := by
    intro hs
    obtain ⟨-, bytes, hpay, -⟩ := hr.data hs
    exact hdisk ⟨hpay.verb, hpay.replies⟩
  cases h with
  | header hs' => exact absurd hs' hs.ne.1
  | line _ hn => exact absurd hn (hwrite _)
  | replied => rfl
  | size _ _ hn => exact absurd hn (hwrite _)
  | noFile hs' _ hh =>
    obtain ⟨f, body, hsent, -⟩ := hget hs'
    cases hh.symm.trans (hsent.fd hc)
  | @pread f hs' hlen hh hp =>
    obtain ⟨g, body, hsent, hbody⟩ := hget hs'
    obtain rfl := Option.some.inj (hh.symm.trans (hsent.fd hc))
    have hsize : c.client.fileSize = body.length := hsent.size
    have hroom : 0 < dataRoom c.client := by
      simp only [dataRoom, bufferSize]
      omega
    have hoff : c.client.bytesTransferred < (c.disk.bytes f).length := by
      rw [hbody]
      omega
    obtain ⟨hnone, hnil⟩ := sysPread_ne_nil hw hroom hoff
    exact absurd hp (not_or.mpr ⟨hnone, hnil⟩)
  | data _ _ _ _ _ hn => exact absurd hn (hw.file.write _).2
  | got => rfl
  | list _ hn => exact absurd hn (hwrite _)
  | listed => rfl

/-- A connection that sends its reply, or is done with it. -/
structure Flowing (c : Ctx) : Prop where
  conn : ConnOk c
  mem : MemOk c
  live : c.freed = false → c.client.state.Sending ∧ Willing c.script
  done : c.freed = true → c.client.state = .done
  disk : OnDisk c

/-- **Step of a reply.** -/
theorem Flowing.step (h : Flowing c) (hc : c.freed = false) (hstep : Step c c') :
    Flowing c' ∧ (c'.freed = false → c.credit ≤ c'.credit) := by
  obtain ⟨hs, hw⟩ := h.live hc
  have hr : ReplyOk c.toConn := h.conn.reply
  have hconn : ConnOk c' := connOk_stable.step _ _ hc h.conn hstep
  have hmem : MemOk c' := h.mem.step hstep
  have hdisk : c'.replies = c.replies → OnDisk c' := by
    rintro hreplies ⟨hv, hmsg⟩
    have hverb : c.client.requestVerb = .get :=
      (hstep.sameHeader hs.ne.1).2.verb.symm.trans hv
    obtain ⟨f, body, hsent, hbody⟩ := h.disk ⟨hverb, hreplies ▸ hmsg⟩
    refine ⟨f, body, hsent.step hr hc hbody (Nat.le_refl _) hstep, ?_⟩
    rw [hstep.disk_of_sending hs (by rw [hverb]; simp)]
    exact hbody
  rcases hstep.of_sending h.mem hs with hq | hsend | ⟨k, hk, rfl⟩
  · have hsame : c'.client = c.client ∧ c'.freed = c.freed := by
      cases hq <;> exact ⟨rfl, rfl⟩
    have hreplies : c'.replies = c.replies := by
      cases hq with
      | read => exact (SameReply.of_log (Ctx.sysRead_log c _) rfl rfl).replies
      | write => exact sysWrite_replies _
      | pread => rfl
    obtain ⟨hw', hcredit⟩ := hq.willing hw
    refine ⟨⟨hconn, hmem, fun _ => ⟨hsame.1 ▸ hs, hw'⟩, fun hf => ?_, hdisk hreplies⟩,
      fun _ => hcredit⟩
    cases (hsame.2.symm.trans hf).symm.trans hc
  · obtain ⟨hw', hcredit⟩ := hsend.willing hr hc hw
    refine ⟨⟨hconn, hmem, fun _ => ⟨hsend.sending, hw'⟩, fun hf => ?_, hdisk hsend.replies⟩,
      fun _ => hcredit⟩
    cases (hsend.freed.symm.trans hf).symm.trans hc
  · have hdone : (closeAndCleanup k).client.state = .done := by
      rw [closeAndCleanup_client]
      exact hk.done_of_willing hr hw h.disk hc hs
    have hreplies : (closeAndCleanup k).replies = c.replies := by
      rw [closeAndCleanup_replies]
      exact hk.replies
    exact ⟨⟨hconn, hmem, fun hf => (by cases hf), fun _ => hdone, hdisk hreplies⟩,
      fun hf => (by cases hf)⟩

/-- The steps of an event. -/
theorem Flowing.steps (h : Flowing c) (hsteps : Steps c c') :
    Flowing c' ∧ (c'.freed = false → c.credit ≤ c'.credit) := by
  have hrun := Chain.invariant
    (P := fun x : Ctx => Flowing x ∧ (x.freed = false → c.credit ≤ x.credit))
    (fun x y hxy ⟨hx, hle⟩ => by
      obtain ⟨hy, hcredit⟩ := hx.step hxy.1 hxy.2
      exact ⟨hy, fun hf => (hle hxy.1).trans (hcredit hf)⟩)
    hsteps ⟨h, fun _ => Nat.le_refl _⟩
  exact hrun

/-- **A report of room** moves a reply by a byte at least, or the connection is closed. -/
theorem Flowing.handleWriteEvent (h : Flowing c) (hc : c.freed = false) :
    Flowing (handleWriteEvent c) ∧ ((FileServer.handleWriteEvent c).freed = false →
      c.credit ≤ (FileServer.handleWriteEvent c).credit ∧
        ((FileServer.handleWriteEvent c).script.tx ≠ [] →
          c.script.tx ≠ [] ∧ c.sent.length < (FileServer.handleWriteEvent c).sent.length)) := by
  obtain ⟨hs, -⟩ := h.live hc
  obtain ⟨hflow, hcredit⟩ := h.steps (handleWriteEvent_steps hc)
  refine ⟨hflow, fun hf => ⟨hcredit hf, fun htx => ?_⟩⟩
  have hle := hcredit hf
  have hpos := List.length_pos_iff.mpr htx
  -- the event has used up a part of the script
  have hused : (FileServer.handleWriteEvent c).script.tx.length ≤ c.script.tx.length - 1 := by
    rcases handleWriteEvent_parked h.conn.reply hc hs with hfreed | hparked
    · cases hf.symm.trans hfreed
    · cases hparked with
      | rearmed _ _ _ hused => exact hused
      | blocked _ _ _ hused => exact hused
  unfold Conn.credit at hle
  constructor
  · apply List.ne_nil_of_length_pos
    omega
  · omega

/-- An event without errors, for a connection that has a reply to send. -/
theorem serveEvent_of_sending (hc : c.freed = false) (hs : c.client.state.Sending) {ev : Events}
    (he : ev.error = false) :
    serveEvent c ev = if ev.write then FileServer.handleWriteEvent c else c := by
  have hread : (if ev.read then handleReadEvent c else c) = c := by
    split_ifs
    · exact handleReadEvent_of_sending hs
    · rfl
  unfold serveEvent
  rw [if_neg (by simp [he]), hread]
  dsimp only
  split_ifs with hw hf hs'
  · cases hc.symm.trans hf
  · rfl
  · exact absurd hs.ne.1 hs'
  · rfl

end Steps

/-! ### Runs -/

/-- The action reports room in the socket `fd`. -/
def Action.wakes (fd : Int) : Action → Bool
  | .accept _ _ => false
  | .event fd' ev => fd' == fd && ev.write

/-- No event of connection `i` reports an error while it lives. -/
def Unbroken (s : Server) (acts : List Action) (i : ConnId) : Prop :=
  ∀ pre a post, acts = pre ++ a :: post → ∀ conn ev, (s.run pre).conns[i]? = some conn →
    conn.freed = false → a = .event conn.client.fd ev → ev.error = false

/-- How far a connection is that was `c₀` before `n` reports of room. -/
structure Delivered (c₀ : Conn) (n : Nat) (c : Conn) : Prop where
  sending : c.freed = false → c.client.state.Sending
  willing : c.freed = false → Willing c.script
  credit : c.freed = false → c₀.credit ≤ c.credit
  moved : c.freed = false → c.script.tx ≠ [] → c₀.sent.length + n ≤ c.sent.length
  done : c.freed = true → c.client.state = .done

theorem Delivered.of_freed {c₀ c : Conn} {n : Nat} (hf : c.freed = true)
    (hdone : c.client.state = .done) : Delivered c₀ n c where
  sending := fun h => by cases hf.symm.trans h
  willing := fun h => by cases hf.symm.trans h
  credit := fun h => by cases hf.symm.trans h
  moved := fun h => by cases hf.symm.trans h
  done := fun _ => hdone

section Runs

variable {k : Disk} {pre acts : List Action} {i : ConnId} {c₀ conn : Conn} {n : Nat} {s : Server}

/-- One event of the connection. -/
theorem Delivered.event (h : Delivered c₀ n conn) (hflow : Flowing (s.ctx conn))
    (hlive : conn.freed = false) {ev : Events} (he : ev.error = false) :
    Delivered c₀ (n + ev.write.toNat) (serveEvent (s.ctx conn) ev).toConn := by
  rw [serveEvent_of_sending hlive (h.sending hlive) he]
  split_ifs with hw
  · obtain ⟨hflow', hmoved⟩ := hflow.handleWriteEvent hlive
    refine ⟨fun hf => (hflow'.live hf).1, fun hf => (hflow'.live hf).2, fun hf => ?_,
      fun hf htx => ?_, hflow'.done⟩
    · exact (h.credit hlive).trans (hmoved hf).1
    · obtain ⟨htx₀, hlt⟩ := (hmoved hf).2 htx
      have hle := h.moved hlive htx₀
      have hlt' : conn.sent.length
          < (handleWriteEvent (s.ctx conn)).sent.length := hlt
      rw [hw, Bool.toNat_true]
      omega
  · have hn : ev.write = false := by simpa using hw
    rw [hn]
    exact h

/-- What a run with enough memory knows of a connection that sends a reply. -/
theorem Delivered.flowing (h : Delivered c₀ n conn) (hsingle : ∀ a ∈ acts, a.Single)
    (hfile : Unmodified (Server.boot k) acts i)
    (hi : ((Server.boot k).run acts).conns[i]? = some conn) (hlive : conn.freed = false)
    (hreg : ∀ d, conn.download ≠ some (.dir d)) :
    Flowing (((Server.boot k).run acts).ctx conn) := by
  have hplenty : ∀ a ∈ acts, a.Plenty := fun a ha => (hsingle a ha).plenty
  obtain ⟨hok, hm, -⟩ := connOk_memOk k hplenty hi
  refine ⟨hok, hm, fun hf => ⟨h.sending hf, h.willing hf⟩, h.done, fun ha => ?_⟩
  obtain ⟨f, size, bs, hsent, -, hd⟩ := fileSent_run k hfile hi ha
  obtain ⟨hsize, hbytes⟩ := hd hlive
  cases f with
  | dir d => exact absurd hsent.download (hreg d)
  | file l gen =>
    have hlen : size = bs.length := hsize.symm.trans (congrArg List.length hbytes)
    exact ⟨_, bs, hlen ▸ hsent, hbytes⟩

/-- **Progress.** Each report of room moves the reply. -/
theorem delivered_run (hsingle : ∀ a ∈ pre ++ acts, a.Single)
    (hfile : Unmodified (Server.boot k) (pre ++ acts) i)
    (h₀ : ((Server.boot k).run pre).conns[i]? = some c₀) (hlive : c₀.freed = false)
    (hs : c₀.client.state.Sending) (hw : Willing c₀.script)
    (herr : Unbroken ((Server.boot k).run pre) acts i)
    (hi : ((Server.boot k).run (pre ++ acts)).conns[i]? = some conn)
    (hreg : ∀ d, conn.download ≠ some (.dir d)) :
    Delivered c₀ (acts.countP (Action.wakes c₀.client.fd)) conn := by
  induction acts using List.reverseRecOn generalizing conn with
  | nil =>
    rw [List.append_nil] at hi
    obtain rfl := Option.some.inj (h₀.symm.trans hi)
    exact ⟨fun _ => hs, fun _ => hw, fun _ => Nat.le_refl _, fun _ _ => Nat.le_refl _,
      fun hf => (by cases hlive.symm.trans hf)⟩
  | append_singleton acts a ih =>
    rw [← List.append_assoc] at hsingle hfile hi
    have hsingle' : ∀ b ∈ pre ++ acts, b.Single :=
      fun b hb => hsingle b (List.mem_append_left _ hb)
    obtain ⟨hfile', -⟩ := Chain.forall_split_concat.mp hfile
    obtain ⟨herr', hlast⟩ := Chain.forall_split_concat.mp herr
    obtain ⟨conn₁, hi₁, hp₀⟩ := Server.conn_mono (.boot k) h₀ acts
    obtain ⟨conn₂, hi₂, hp⟩ := Server.conn_mono (.boot k) hi₁ [a]
    obtain rfl := Option.some.inj (hi.symm.trans hi₂)
    have hreg₁ : ∀ d, conn₁.download ≠ some (.dir d) :=
      fun d hd => hreg d (Conn.download_mono hp.log hd)
    have hdel := ih hsingle' hfile' herr' hi₁ hreg₁
    have hlives := ((Lives.boot k).run hsingle').1
    rw [Server.run_concat] at hi
    rw [← Server.run_append] at hlast
    rw [List.countP_append, List.countP_singleton, ← hp₀.fd]
    rw [← hp₀.fd] at hdel
    generalize hrun : (Server.boot k).run (pre ++ acts) = s at *
    cases hf : conn₁.freed with
    | true =>
      obtain rfl := hp.freed hf
      exact .of_freed hf (hdel.done hf)
    | false =>
      have hget := hlives.get_live hi₁ hf
      by_cases hown : ∃ ev, a = .event conn₁.client.fd ev
      · obtain ⟨ev, rfl⟩ := hown
        rw [Server.act_event hlives.fault hget hi₁, Server.put_conns_self _ hi₁] at hi
        obtain rfl := Option.some.inj hi
        have hflow : Flowing (s.ctx conn₁) := by
          rw [← hrun] at hi₁ ⊢
          exact hdel.flowing hsingle' hfile' hi₁ hf hreg₁
        have hnext := hdel.event hflow hf (hlast _ ev hi₁ hf rfl)
        have hcount : (if Action.wakes conn₁.client.fd (.event conn₁.client.fd ev) = true then 1
            else 0) = ev.write.toNat := by
          rw [Action.wakes, beq_self_eq_true, Bool.true_and]
          cases ev.write <;> rfl
        rw [hcount]
        exact hnext
      · -- the action is none of this connection
        have hne : ∀ ev, a ≠ .event conn₁.client.fd ev := fun ev ha => hown ⟨ev, ha⟩
        have hwakes : Action.wakes conn₁.client.fd a = false := by
          cases a with
          | accept => rfl
          | event fd ev =>
            have hfd : fd ≠ conn₁.client.fd := fun h => hne ev (h ▸ rfl)
            simp [Action.wakes, hfd]
        rw [Server.conns_act_of_ne hlives.map hget hne, hi₁] at hi
        obtain rfl := Option.some.inj hi
        rw [hwakes]
        exact hdel

/-- The reply of a connection, as far as it is sent. -/
theorem reply_run (hplenty : ∀ a ∈ acts, a.Plenty) (hfile : Unmodified (Server.boot k) acts i)
    (hi : ((Server.boot k).run acts).conns[i]? = some conn) :
    ∃ reply, IsReply (Server.boot k) acts i conn reply ∧ conn.sent <+: reply ∧
      (conn.client.state = .done → conn.sent = reply) := by
  obtain ⟨hok, -, hle⟩ := connOk_memOk k hplenty hi
  have hr : ReplyOk conn := hok.reply
  match hreplies : conn.replies, hle with
  | [], _ =>
    obtain ⟨hnil, hne⟩ := hr.sent_nil hreplies
    exact ⟨[], .none hreplies, hnil ▸ List.prefix_rfl, fun hs => absurd hs hne⟩
  | [(.error, msg)], _ =>
    exact ⟨_, .rejected hreplies, hr.line_prefix hreplies fun h => (by cases h)⟩
  | [(.ok, msg)], _ =>
    cases hv : conn.client.requestVerb with
    | get =>
      obtain ⟨f, n, bs, hsent, hopen, -⟩ := fileSent_run k hfile hi ⟨hv, msg, hreplies⟩
      refine ⟨_, .file hreplies hv hsent.download hopen, ?_⟩
      rw [List.append_assoc]
      exact ⟨hsent.prefix_of hr, hsent.done⟩
    | list =>
      obtain ⟨ws, hsent, hlist⟩ := namesSent_run k hi ⟨hv, msg, hreplies⟩
      refine ⟨_, .names hreplies hv hlist, ?_⟩
      rw [List.append_assoc]
      exact ⟨hsent.prefix_of hr, hsent.done⟩
    | put =>
      exact ⟨_, .done hreplies (.inl hv), hr.line_prefix hreplies fun _ => by simp [hv]⟩
    | delete =>
      exact ⟨_, .done hreplies (.inr hv), hr.line_prefix hreplies fun _ => by simp [hv]⟩
    | unknown =>
      have hverb := hok.request.verb
      exact absurd (hverb.symm.trans hv) (verbOf_requestOf_ne _)

end Runs

/-- **Every reply comes to its end**, in a run where memory is to be had and no event asks for READ
and WRITE together.  A connection that has a reply to send, whose socket takes a byte at least at
each write, and whose file is a regular one that is not modified, is done at the latest when room
was reported as often as the reply has bytes left, and once more, if no error is reported for it;
whatever the other connections do in between. -/
theorem reply_completed (k : Disk) (pre acts : List Action)
    (hsingle : ∀ a ∈ pre ++ acts, a.Single) (i : ConnId)
    (hfile : Unmodified (Server.boot k) (pre ++ acts) i) {conn₀ conn : Conn}
    (h₀ : ((Server.boot k).run pre).conns[i]? = some conn₀) (hlive : conn₀.freed = false)
    (hs : conn₀.client.state.Sending) (hw : Willing conn₀.script)
    (herr : Unbroken ((Server.boot k).run pre) acts i)
    (hi : ((Server.boot k).run (pre ++ acts)).conns[i]? = some conn)
    (hreg : ∀ d, conn.download ≠ some (.dir d)) :
    ∃ reply, IsReply (Server.boot k) (pre ++ acts) i conn reply ∧ conn.sent <+: reply ∧
      (reply.length < conn₀.sent.length + conn₀.script.tx.length →
        reply.length < conn₀.sent.length + acts.countP (Action.wakes conn₀.client.fd) →
        conn.client.state = .done ∧ conn.sent = reply) := by
  obtain ⟨reply, hreply, hprefix, hdone⟩ :=
    reply_run (fun a ha => (hsingle a ha).plenty) hfile hi
  have hdel := delivered_run hsingle hfile h₀ hlive hs hw herr hi hreg
  refine ⟨reply, hreply, hprefix, fun htx hwakes => ?_⟩
  have hstate : conn.client.state = .done := by
    apply hdel.done
    by_contra hf
    have hlive' : conn.freed = false := by simpa using hf
    have hle := hprefix.length_le
    have hcredit := hdel.credit hlive'
    unfold Conn.credit at hcredit
    -- the script is not used up, so every report has moved the reply
    have hleft : conn.script.tx ≠ [] := by
      apply List.ne_nil_of_length_pos
      omega
    have hmoved := hdel.moved hlive' hleft
    omega
  exact ⟨hstate, hdone hstate⟩

/-- Another client uploads `x` before the OK line is finished; then room is reported. -/
def roomAtLast : List Action :=
  [.accept 6 ⟨pushBack (ascii "PUT x\n" ++ sizeBytes 1 ++ [7]) [], [.room 3], [], []⟩,
    .event 6 .onRead, .event 6 .onRead] ++ List.replicate 12 (.event 5 .onWrite)

theorem reply_completed_slowListing : ∃ conn,
    ((Server.boot bareDisk).run (slowListing ++ roomAtLast)).conns[0]? = some conn ∧
      conn.client.state = .done ∧ conn.sent = ascii "OK\n" ++ sizeBytes 1 ++ ascii "x" := by
  obtain ⟨conn₀, h₀, hlive, hs, htx, hfx, hfd, hsent₀⟩ :
      ∃ conn ∈ ((Server.boot bareDisk).run slowListing).conns[0]?, conn.freed = false ∧
        conn.client.state = .sendOk ∧ conn.script.tx = List.replicate 12 (.room 1) ∧
        conn.script.fx = [] ∧ conn.client.fd = 5 ∧ conn.sent.length = 1 := by decide +kernel
  obtain ⟨conn, hi, hdown, hreplies, hverb⟩ :
      ∃ conn ∈ ((Server.boot bareDisk).run (slowListing ++ roomAtLast)).conns[0]?,
        conn.download = none ∧ conn.replies = [(.ok, [])] ∧ conn.client.requestVerb = .list := by
    decide +kernel
  have hnofile : ∀ j < (slowListing ++ roomAtLast).length,
      ∀ conn ∈ ((Server.boot bareDisk).run ((slowListing ++ roomAtLast).take j)).conns[0]?,
        conn.client.fileFd = none := by decide +kernel
  have hfile : Unmodified (Server.boot bareDisk) (slowListing ++ roomAtLast) 0 := by
    intro pre a post heq conn f hi hlive hv hf
    have hnone := hnofile pre.length (by rw [heq]; simp) conn
    rw [show (slowListing ++ roomAtLast).take pre.length = pre by rw [heq, List.take_left]] at hnone
    cases hf.symm.trans (hnone hi)
  have herr : Unbroken ((Server.boot bareDisk).run slowListing) roomAtLast 0 := by
    intro pre a post heq conn ev hi hlive ha
    have hmem : a ∈ roomAtLast := heq ▸ List.mem_append_right _ (List.mem_cons_self ..)
    subst ha
    simp [roomAtLast, Events.onRead, Events.onWrite] at hmem
    rcases hmem with ⟨-, rfl⟩ | ⟨-, rfl⟩ <;> rfl
  have hsingle : ∀ a ∈ slowListing ++ roomAtLast, a.Single := by
    simp [slowListing, roomAtLast, Action.Single, Events.onRead, Events.onWrite]
  obtain ⟨reply, hreply, -, hdone⟩ := reply_completed bareDisk slowListing roomAtLast hsingle 0
    hfile h₀ hlive (.inl hs) ⟨by simp [htx], by simp [hfx]⟩ herr hi (by simp [hdown])
  -- the list held `x` when the OK line was finished
  have hlisted : reply = ascii "OK\n" ++ sizeBytes 1 ++ ascii "x" := by
    cases hreply with
    | none h => cases hreplies.symm.trans h
    | rejected h => cases hreplies.symm.trans h
    | done h hv => rcases hv with hv | hv <;> cases hverb.symm.trans hv
    | file h hv => cases hverb.symm.trans hv
    | @names msg ws h hv hlist =>
      have hws := hlist ((slowListing ++ roomAtLast).take 6) (.event 5 .onWrite)
        ((slowListing ++ roomAtLast).drop 7) rfl (by decide +kernel) (by decide +kernel)
      have hx : ws.map some = [some (ascii "x")] := by
        rw [← hws]
        decide +kernel
      obtain rfl : ws = [ascii "x"] := List.map_injective_iff.mpr (Option.some_injective _) hx
      rfl
  have hlen : reply.length = 12 := by
    rw [hlisted]
    rfl
  obtain ⟨hstate, hsent⟩ := hdone (by rw [hlen, hsent₀, htx]; decide)
    (by rw [hlen, hsent₀, hfd]; decide)
  exact ⟨conn, hi, hstate, hsent.trans hlisted⟩

end FileServer
