/-
  The handlers on contexts that agree on one name.

  From contexts that agree on the name `w` of a connection (`Alike`), every handler
  ends in contexts that agree on it, and leaves the other names alone.  There is one
  lemma for each function of `server.c`; the loops go through the relational loop rule.
  While a request line is received the record holds no name yet, and what is still to
  come asks for `w` (`Asks`).
-/
import FileServer.Delivery
import FileServer.Equiv.Alike

namespace FileServer

open Ctx Loop

/-- A request that names `w`. -/
def AsksFor (w : Path) (q : Request) : Prop := q = .get w ∨ q = .put w ∨ q = .delete w

/-- What the client sends asks for `w`, if it is a request at all; its line is being received. -/
def Asks (w : Path) (c : Ctx) : Prop :=
  ∀ q, requestOf (c.client.headerBuf ++ incoming c.script.rx) = some q → AsksFor w q

namespace Alike

variable {t : Tree} {w n : Path} {o : Path → Slot × Nat} {c d : Ctx}

/-! #### The handlers -/

section Handlers

variable (hw : EntryName w) (hlen : w.length ≤ 255)

include hw hlen

theorem resolve_filepath (h : Alike t w w o c d) : t.resolve c.filepath = .entry (t.temp, w) := by
  have hname : c.client.filename = w := h.own.name
  rw [filepath_of_length_le (hname ▸ hlen), hname, h.tree.1]
  exact t.resolve_entryName hw

theorem closeAndCleanup (h : Alike t w n o c d) :
    Alike t w n o (closeAndCleanup c) (closeAndCleanup d) := by
  have hclosed : Alike t w n o ({ c with interest := none }.note .close)
      ({ d with interest := none }.note .close) := by
    have hoff : Alike t w n o { c with interest := none } { d with interest := none } := by
      refine h.local_ ?_ (h.own.congr rfl (fun _ hx => hx) rfl rfl id) rfl rfl
      obtain ⟨u, G⟩ := c
      obtain ⟨v, H⟩ := d
      obtain rfl : u = v := h.conn
      rfl
    exact hoff.note _
  unfold FileServer.closeAndCleanup
  dsimp only
  generalize { c with interest := none }.note .close = c' at hclosed ⊢
  generalize { d with interest := none }.note .close = d' at hclosed ⊢
  rw [hclosed.client, hclosed.filepath]
  -- an upload that is not done is unlinked
  have hunlinked : Alike t w n o
      (if c'.client.requestVerb = .put ∧ c'.client.state ≠ .done
        then (c'.sysUnlink c'.filepath).2 else c')
      (if c'.client.requestVerb = .put ∧ c'.client.state ≠ .done
        then (d'.sysUnlink c'.filepath).2 else d') := by
    split_ifs with hput
    · obtain rfl : n = w := by
        refine hclosed.own.named.resolve_right fun ⟨_, hget, _⟩ => ?_
        cases hput.1.symm.trans hget
      exact (hclosed.sysUnlink (hclosed.resolve_filepath hw hlen)).2
    · exact hclosed
  generalize (if c'.client.requestVerb = .put ∧ c'.client.state ≠ .done
    then (c'.sysUnlink c'.filepath).2 else c') = c'' at hunlinked ⊢
  generalize (if c'.client.requestVerb = .put ∧ c'.client.state ≠ .done
    then (d'.sysUnlink c'.filepath).2 else d') = d'' at hunlinked ⊢
  obtain ⟨u, G⟩ := c''
  obtain ⟨v, H⟩ := d''
  obtain rfl : u = v := hunlinked.conn
  exact ⟨rfl, hunlinked.own.congr rfl (fun _ hx => by cases hx) rfl rfl id, hunlinked.tree,
    hunlinked.slot, hunlinked.listed, hunlinked.names, hunlinked.others⟩

/-- A short response; it is no LIST, so the list is not sent. -/
theorem executeWith (h : Alike t w n o c d) (f : Ctx → Ctx) :
    Alike t w n o (executeWith f c) (executeWith f d) := by
  obtain ⟨hfst, hwritten⟩ := h.sysWrite (simpleResponseRest c.client)
  unfold FileServer.executeWith
  rw [h.client]
  generalize c.sysWrite (simpleResponseRest c.client) = x at hfst hwritten ⊢
  generalize d.sysWrite (simpleResponseRest c.client) = y at hfst hwritten ⊢
  obtain ⟨r, c'⟩ := x
  obtain ⟨r', d'⟩ := y
  obtain rfl : r' = r := hfst
  cases r' with
  | eagain => exact hwritten
  | err => exact hwritten.closeAndCleanup hw hlen
  | wrote m =>
    have hsent := hwritten.update
      (f := fun k => { k with simpleResponseSent := k.simpleResponseSent + m })
      (fun _ _ hx => hx) (fun _ => rfl) (fun _ => rfl) (fun _ hs => hs)
    dsimp only at hsent ⊢
    generalize c'.setClient _ = c'' at hsent ⊢
    generalize d'.setClient _ = d'' at hsent ⊢
    have hdone := hsent.enter .done (f := fun k => { k with state := .done }) (by decide)
      (fun _ => rfl) (fun _ _ hx => hx) (fun _ => rfl) fun _ => rfl
    have hverb := hsent.own.verb
    rw [hsent.client]
    split_ifs
    · cases c''.client.state with
      | sendOk =>
        cases hv : c''.client.requestVerb with
        | list => exact absurd hv hverb
        | get =>
          have hsize : Alike t w n o
              (c''.setClient fun k => { k with
                simpleResponseLen := 0, simpleResponseSent := 0, state := .sendGetSize })
              (d''.setClient fun k => { k with
                simpleResponseLen := 0, simpleResponseSent := 0, state := .sendGetSize }) :=
            hsent.enter .sendGetSize (by decide) (fun _ => rfl) (fun _ _ hx => hx) (fun _ => rfl)
              fun _ => rfl
          exact hsize.modifyEventLoop _
        | _ => exact hdone.closeAndCleanup hw hlen
      | sendError => exact hdone.closeAndCleanup hw hlen
      | _ => exact hsent
    · exact hsent.modifyEventLoop _

theorem prepareAndSendResponse (h : Alike t w n o c d) (st : Status) (msg : List Byte) :
    Alike t w n o (prepareAndSendResponse c st msg) (prepareAndSendResponse d st msg) := by
  have hfilled : Alike t w n o (fillResponse c st msg) (fillResponse d st msg) := by
    unfold fillResponse
    cases st with
    | ok =>
      exact (h.note _).enter .sendOk (by decide) (fun _ => rfl) (fun _ _ hx => hx) (fun _ => rfl)
        fun _ => rfl
    | error =>
      exact (h.note _).enter .sendError (by decide) (fun _ => rfl) (fun _ _ hx => hx)
        (fun _ => rfl) fun _ => rfl
  exact hfilled.executeWith hw hlen _

theorem executeSimpleResponseWrite (h : Alike t w n o c d) :
    Alike t w n o (executeSimpleResponseWrite c) (executeSimpleResponseWrite d) :=
  h.executeWith hw hlen startSendList

/-! #### PUT -/

theorem abortUpload (h : Alike t w n o c d) : Alike t w n o (abortUpload c) (abortUpload d) :=
  h.closeFile.prepareAndSendResponse hw hlen .error errBadFileSize

theorem recvPutDataPass (h : Alike t w n o c d) :
    Pass.Rel (Alike t w n o) (Alike t w n o) (recvPutDataPass c) (recvPutDataPass d) := by
  unfold FileServer.recvPutDataPass
  rw [h.client]
  split_ifs with hlt
  swap
  · exact .leave h
  obtain ⟨hfst, hread⟩ :=
    h.sysRead (min bufferSize (c.client.expectedSize - c.client.bytesTransferred))
  dsimp only
  generalize c.sysRead _ = x at hfst hread ⊢
  generalize d.sysRead _ = y at hfst hread ⊢
  obtain ⟨r, c'⟩ := x
  obtain ⟨r', d'⟩ := y
  obtain rfl : r' = r := hfst
  have habort := hread.abortUpload hw hlen
  dsimp only at hread habort ⊢
  match r' with
  | .eintr => exact .again hread
  | .eagain => exact .leave hread
  | .err | .eof | .bytes [] => exact .ret habort
  | .bytes (b :: bs) =>
    dsimp only
    rw [hread.client]
    cases hfd : c'.client.fileFd with
    | none => exact .ret habort
    | some x =>
      obtain ⟨gen, rfl⟩ := hread.own.handle x hfd
      obtain ⟨hfst, hwritten⟩ := hread.sysPwrite gen (b :: bs) c'.client.bytesTransferred
      dsimp only
      generalize c'.sysPwrite _ _ _ = x at hfst hwritten ⊢
      generalize d'.sysPwrite _ _ _ = y at hfst hwritten ⊢
      obtain ⟨r, c''⟩ := x
      obtain ⟨r', d''⟩ := y
      obtain rfl : r' = r := hfst
      split_ifs
      · exact .again (hwritten.update (fun _ _ hx => hx) (fun _ => rfl) (fun _ => rfl)
          fun _ hs => hs)
      · exact .ret (hwritten.abortUpload hw hlen)

theorem finishUpload (h : Alike t w w o c d) :
    Alike t w w o (finishUpload c) (finishUpload d) := by
  unfold FileServer.finishUpload
  rw [h.client]
  split_ifs
  swap
  · exact h
  obtain ⟨hfst, hread⟩ := h.closeFile.sysRead 1
  dsimp only
  generalize c.closeFile.sysRead 1 = x at hfst hread ⊢
  generalize d.closeFile.sysRead 1 = y at hfst hread ⊢
  obtain ⟨r, c'⟩ := x
  obtain ⟨r', d'⟩ := y
  obtain rfl : r' = r := hfst
  have haccept := ((hread.note (.accept w)).addFileToList).prepareAndSendResponse hw hlen .ok []
  dsimp only at hread haccept ⊢
  have hname : c'.client.filename = w := hread.own.name
  rw [hread.client, hname]
  match r' with
  | .bytes (_ :: _) => exact hread.prepareAndSendResponse hw hlen .error errBadFileSize
  | .bytes [] | .eintr | .eagain | .err | .eof => exact haccept

theorem recvPutData (h : Alike t w w o c d) :
    Alike t w w o (recvPutData c) (recvPutData d) := by
  have hrel : Pass.Rel (Alike t w w o) (Alike t w w o)
      (exec FileServer.recvPutDataPass (fun c => rxWeight c.script.rx) c)
      (exec FileServer.recvPutDataPass (fun c => rxWeight c.script.rx) d) :=
    exec_rel (fun _ _ h => h.recvPutDataPass hw hlen) (fun _ _ h => by rw [h.script]) h
  unfold FileServer.recvPutData
  generalize exec FileServer.recvPutDataPass _ c = p at hrel ⊢
  generalize exec FileServer.recvPutDataPass _ d = q at hrel ⊢
  cases hrel with
  | again h' => exact h'
  | leave h' => exact h'.finishUpload hw hlen
  | ret h' => exact h'

theorem recvPutSizePass (h : Alike t w n o c d) :
    Pass.Rel (Alike t w n o) (Alike t w n o) (recvPutSizePass c) (recvPutSizePass d) := by
  unfold FileServer.recvPutSizePass
  rw [h.client]
  split_ifs with hlt
  swap
  · exact .leave h
  obtain ⟨hfst, hread⟩ := h.sysRead (sizeLen - c.client.bytesTransferred)
  dsimp only
  generalize c.sysRead _ = x at hfst hread ⊢
  generalize d.sysRead _ = y at hfst hread ⊢
  obtain ⟨r, c'⟩ := x
  obtain ⟨r', d'⟩ := y
  obtain rfl : r' = r := hfst
  have hbad := hread.prepareAndSendResponse hw hlen .error errBadFileSize
  dsimp only at hread hbad ⊢
  match r' with
  | .eintr => exact .again hread
  | .eagain => exact .ret hread
  | .err | .eof | .bytes [] => exact .ret hbad
  | .bytes (b :: bs) =>
    exact .again (hread.update (fun _ _ hx => hx) (fun _ => rfl) (fun _ => rfl) fun _ hs => hs)

theorem openUpload (h : Alike t w w o c d) : Alike t w w o (openUpload c) (openUpload d) := by
  have hzero := h.update (f := fun k => { k with bytesTransferred := 0 }) (fun _ _ hx => hx)
    (fun _ => rfl) (fun _ => rfl) fun _ hs => hs
  unfold FileServer.openUpload
  dsimp only
  generalize c.setClient _ = c' at hzero ⊢
  generalize d.setClient _ = d' at hzero ⊢
  obtain ⟨hfst, hhandle, hopened⟩ := hzero.sysOpenWrite (hzero.resolve_filepath hw hlen)
  rw [hzero.filepath]
  generalize c'.sysOpenWrite _ = x at hfst hhandle hopened ⊢
  generalize d'.sysOpenWrite _ = y at hfst hopened ⊢
  obtain ⟨r, c''⟩ := x
  obtain ⟨r', d''⟩ := y
  obtain rfl : r' = r := hfst
  dsimp only at hhandle hopened ⊢
  have hset := hopened.openFile hhandle
  cases r' with
  | none => exact hset.prepareAndSendResponse hw hlen .error errBadFileSize
  | some x =>
    exact recvPutData hw hlen
      (hset.assign (fun _ _ hx => hx) (fun _ => rfl) fun _ => rfl)

theorem recvPutSize (h : Alike t w w o c d) :
    Alike t w w o (recvPutSize c) (recvPutSize d) := by
  have hrel : Pass.Rel (Alike t w w o) (Alike t w w o)
      (exec FileServer.recvPutSizePass (fun c => rxWeight c.script.rx) c)
      (exec FileServer.recvPutSizePass (fun c => rxWeight c.script.rx) d) :=
    exec_rel (fun _ _ h => h.recvPutSizePass hw hlen) (fun _ _ h => by rw [h.script]) h
  unfold FileServer.recvPutSize
  generalize exec FileServer.recvPutSizePass _ c = p at hrel ⊢
  generalize exec FileServer.recvPutSizePass _ d = q at hrel ⊢
  cases hrel with
  | again h' => exact h'
  | leave h' => exact h'.openUpload hw hlen
  | ret h' => exact h'

/-! #### GET -/

theorem startSendGet (h : Alike t w w o c d) :
    Alike t w w o (startSendGet c) (startSendGet d) := by
  obtain ⟨hfst, hhandle, hopened⟩ := h.sysOpenRead (h.resolve_filepath hw hlen)
  unfold FileServer.startSendGet
  dsimp only
  rw [h.filepath]
  generalize c.sysOpenRead _ = x at hfst hhandle hopened ⊢
  generalize d.sysOpenRead _ = y at hfst hopened ⊢
  obtain ⟨r, c'⟩ := x
  obtain ⟨r', d'⟩ := y
  obtain rfl : r' = r := hfst
  dsimp only at hhandle hopened ⊢
  have hset := hopened.openFile hhandle
  cases r' with
  | none => exact hset.prepareAndSendResponse hw hlen .error errNoSuchFile
  | some x =>
    obtain ⟨gen, rfl⟩ := hhandle x rfl
    obtain ⟨hfst, hstat⟩ := hset.sysFstat gen
    dsimp only
    generalize Ctx.sysFstat (c'.setClient _) _ = x at hfst hstat ⊢
    generalize Ctx.sysFstat (d'.setClient _) _ = y at hfst hstat ⊢
    obtain ⟨size, c''⟩ := x
    obtain ⟨size', d''⟩ := y
    obtain rfl : size' = size := hfst
    cases size' with
    | none => exact hstat.closeFile.prepareAndSendResponse hw hlen .error errNoSuchFile
    | some size =>
      refine prepareAndSendResponse hw hlen ?_ .ok []
      exact hstat.update (fun _ _ hx => hx) (fun _ => rfl) (fun _ => rfl) fun _ hs => hs

theorem sendGetSize (h : Alike t w n o c d) :
    Alike t w n o (sendGetSize c) (sendGetSize d) := by
  have hload : Alike t w n o (loadGetSize c) (loadGetSize d) := by
    unfold loadGetSize
    rw [h.client]
    split_ifs
    · exact h.update (fun _ _ hx => hx) (fun _ => rfl) (fun _ => rfl) fun _ hs => hs
    · exact h
  unfold FileServer.sendGetSize
  dsimp only
  generalize loadGetSize c = c' at hload ⊢
  generalize loadGetSize d = d' at hload ⊢
  obtain ⟨hfst, hwritten⟩ := hload.sysWrite (simpleResponseRest c'.client)
  rw [hload.client]
  generalize c'.sysWrite (simpleResponseRest c'.client) = x at hfst hwritten ⊢
  generalize d'.sysWrite (simpleResponseRest c'.client) = y at hfst hwritten ⊢
  obtain ⟨r, c''⟩ := x
  obtain ⟨r', d''⟩ := y
  obtain rfl : r' = r := hfst
  cases r' with
  | eagain => exact hwritten
  | err => exact hwritten.closeAndCleanup hw hlen
  | wrote m =>
    have hsent := hwritten.update
      (f := fun k => { k with simpleResponseSent := k.simpleResponseSent + m })
      (fun _ _ hx => hx) (fun _ => rfl) (fun _ => rfl) fun _ hs => hs
    dsimp only at hsent ⊢
    rw [hsent.client]
    split_ifs
    · refine modifyEventLoop (hsent.enter .sendGetData ?_ ?_ ?_ ?_ ?_) _
      · decide
      · exact fun _ => rfl
      · exact fun _ _ hx => hx
      · exact fun _ => rfl
      · exact fun _ => rfl
    · exact hsent

theorem sendGetDataPass (h : Alike t w n o c d) :
    Pass.Rel (Alike t w n o) (Alike t w n o) (sendGetDataPass c) (sendGetDataPass d) := by
  unfold FileServer.sendGetDataPass
  rw [h.client]
  split_ifs with hlt
  swap
  · exact .leave h
  dsimp only
  cases hfd : c.client.fileFd with
  | none => exact .ret (h.closeAndCleanup hw hlen)
  | some x =>
    obtain ⟨gen, rfl⟩ := h.own.handle x hfd
    obtain ⟨hfst, hread⟩ := h.sysPread gen
      (min bufferSize (c.client.fileSize - c.client.bytesTransferred)) c.client.bytesTransferred
    dsimp only
    generalize c.sysPread _ _ _ = x at hfst hread ⊢
    generalize d.sysPread _ _ _ = y at hfst hread ⊢
    obtain ⟨r, c'⟩ := x
    obtain ⟨r', d'⟩ := y
    obtain rfl : r' = r := hfst
    dsimp only at hread ⊢
    match r' with
    | none | some [] => exact .ret (hread.closeAndCleanup hw hlen)
    | some (b :: bs) =>
      obtain ⟨hfst, hwritten⟩ := hread.sysWrite (b :: bs)
      dsimp only
      generalize c'.sysWrite _ = x at hfst hwritten ⊢
      generalize d'.sysWrite _ = y at hfst hwritten ⊢
      obtain ⟨r, c''⟩ := x
      obtain ⟨r', d''⟩ := y
      obtain rfl : r' = r := hfst
      cases r' with
      | eagain => exact .ret hwritten
      | err => exact .ret (hwritten.closeAndCleanup hw hlen)
      | wrote m =>
        have hsent := hwritten.update
          (f := fun k => { k with bytesTransferred := k.bytesTransferred + m })
          (fun _ _ hx => hx) (fun _ => rfl) (fun _ => rfl) fun _ hs => hs
        dsimp only at hsent ⊢
        split_ifs
        · exact .ret hsent
        · exact .again hsent

theorem sendGetData (h : Alike t w n o c d) :
    Alike t w n o (sendGetData c) (sendGetData d) := by
  have hrel : Pass.Rel (Alike t w n o) (Alike t w n o)
      (exec FileServer.sendGetDataPass (fun c => c.script.tx.length) c)
      (exec FileServer.sendGetDataPass (fun c => c.script.tx.length) d) :=
    exec_rel (fun _ _ h => h.sendGetDataPass hw hlen) (fun _ _ h => by rw [h.script]) h
  unfold FileServer.sendGetData
  generalize exec FileServer.sendGetDataPass _ c = p at hrel ⊢
  generalize exec FileServer.sendGetDataPass _ d = q at hrel ⊢
  cases hrel with
  | again h' => exact h'
  | @leave c' d' h' =>
    have hdone := h'.enter .done (f := fun k => { k with state := .done }) (by decide)
      (fun _ => rfl) (fun _ _ hx => hx) (fun _ => rfl) fun _ => rfl
    dsimp only
    unfold finishGet
    rw [h'.client]
    split_ifs
    · exact hdone.closeAndCleanup hw hlen
    · exact h'
  | ret h' => exact h'

/-! #### DELETE -/

theorem deleteRequest (h : Alike t w w o c d) :
    Alike t w w o (deleteRequest c) (deleteRequest d) := by
  have hname : c.client.filename = w := h.own.name
  unfold FileServer.deleteRequest
  rw [h.client, hname]
  -- both record their search
  replace h := h.use (.find w) (.find w)
  generalize c.use _ = c at h hname ⊢
  generalize d.use _ = d at h ⊢
  have hname : c.client.filename = w := h.own.name
  have habsent := h.prepareAndSendResponse hw hlen .error errNoSuchFile
  obtain ⟨hfst, hunlinked⟩ := h.sysUnlink (h.resolve_filepath hw hlen)
  dsimp only
  rw [h.filepath, h.client, hname]
  generalize c.sysUnlink _ = x at hfst hunlinked ⊢
  generalize d.sysUnlink _ = y at hfst hunlinked ⊢
  obtain ⟨r, c'⟩ := x
  obtain ⟨r', d'⟩ := y
  obtain rfl : r' = r := hfst
  rcases h.search with ⟨⟨i, hi⟩, ⟨j, hj⟩⟩ | ⟨hi, hj⟩
  · rw [hi, hj]
    dsimp only at hunlinked ⊢
    rw [hunlinked.client, show c'.client.filename = w from hunlinked.own.name]
    split_ifs
    · exact hunlinked.removeFileFromList.prepareAndSendResponse hw hlen .ok []
    · exact hunlinked.prepareAndSendResponse hw hlen .error errNoSuchFile
  · rw [hi, hj]
    exact habsent

/-! #### LIST -/

theorem sendListData (h : Alike t w n o c d) :
    Alike t w n o (sendListData c) (sendListData d) := by
  unfold FileServer.sendListData
  dsimp only
  rw [h.client]
  generalize ((c.client.listBuf.getD []).drop c.client.listSent).take _ = rest
  obtain ⟨hfst, hwritten⟩ := h.sysWrite rest
  generalize c.sysWrite rest = x at hfst hwritten ⊢
  generalize d.sysWrite rest = y at hfst hwritten ⊢
  obtain ⟨r, c'⟩ := x
  obtain ⟨r', d'⟩ := y
  obtain rfl : r' = r := hfst
  cases r' with
  | eagain => exact hwritten
  | err => exact hwritten.closeAndCleanup hw hlen
  | wrote m =>
    have hsent := hwritten.update (f := fun k => { k with listSent := k.listSent + m })
      (fun _ _ hx => hx) (fun _ => rfl) (fun _ => rfl) fun _ hs => hs
    have hdone := hsent.enter .done (f := fun k => { k with state := .done }) (by decide)
      (fun _ => rfl) (fun _ _ hx => hx) (fun _ => rfl) fun _ => rfl
    dsimp only at hsent hdone ⊢
    rw [hsent.client]
    split_ifs
    · exact hdone.closeAndCleanup hw hlen
    · exact hsent

/-! #### Requests -/

theorem serveRequest (h : Alike t w [] o c d) {q : Request} (hq : AsksFor w q) :
    Alike t w w o (serveRequest c q) (serveRequest d q) := by
  have hnoted : Alike t w w o (noteRequest c q) (noteRequest d q) := by
    have hown : Own w w (t.temp, w) (noteRequest c q).toConn := by
      refine ⟨h.own.mem, h.own.handle, ?_, ?_, .inl rfl⟩
      · rcases hq with rfl | rfl | rfl <;> exact fun hv => by cases hv
      · rcases hq with rfl | rfl | rfl <;> exact List.take_of_length_le hlen
    refine h.local_ ?_ hown rfl rfl
    obtain ⟨u, G⟩ := c
    obtain ⟨v, H⟩ := d
    obtain rfl : u = v := h.conn
    rfl
  rcases hq with rfl | rfl | rfl
  · exact hnoted.startSendGet hw hlen
  · have hput := hnoted.assign
      (f := fun k => { k with bytesTransferred := 0, state := .recvPutSize })
      (fun _ _ hx => hx) (fun _ => rfl) fun _ => rfl
    exact hput.modifyEventLoop .read
  · exact hnoted.deleteRequest hw hlen

theorem readHeaderPass (h : Alike t w [] o c d) (hasks : Asks w c) :
    Pass.Rel (fun c d => Alike t w [] o c d ∧ Asks w c) (fun c d => ∃ n, Alike t w n o c d)
      (readHeaderPass c) (readHeaderPass d) := by
  unfold FileServer.readHeaderPass
  rw [h.client]
  split_ifs with hroom
  swap
  · exact .leave ⟨h, hasks⟩
  obtain ⟨hfst, hread⟩ := h.sysRead 1
  have hin := incoming_read c.script 1
  have hone : ∀ b bs, (c.sysRead 1).1 = .bytes (b :: bs) → (c.sysRead 1).1 = .bytes [b] :=
    fun b bs hr => sysRead_one hr
  change incoming c.script.rx = (c.sysRead 1).1.found ++ incoming (c.sysRead 1).2.script.rx at hin
  have hbuf : (c.sysRead 1).2.client = c.client := rfl
  unfold Asks at hasks
  rw [hin, ← hbuf] at hasks
  dsimp only
  generalize c.sysRead 1 = x at *
  generalize d.sysRead 1 = y at *
  obtain ⟨r, c'⟩ := x
  obtain ⟨r', d'⟩ := y
  obtain rfl : r' = r := hfst
  have hclosed := hread.closeAndCleanup hw hlen
  dsimp only at hread hasks hclosed hone ⊢
  match r' with
  | .eintr => exact .again ⟨hread, hasks⟩
  | .eagain => exact .leave ⟨hread, hasks⟩
  | .err | .eof | .bytes [] => exact .ret ⟨[], hclosed⟩
  | .bytes (b :: bs) =>
    obtain rfl : bs = [] := by simpa using hone b bs rfl
    have hstored : Alike t w [] o
        (c'.setClient fun k =>
          { k with headerBuf := k.headerBuf ++ [b], headerLen := k.headerLen + 1 })
        (d'.setClient fun k =>
          { k with headerBuf := k.headerBuf ++ [b], headerLen := k.headerLen + 1 }) :=
      hread.update (fun _ _ hx => hx) (fun _ => rfl) (fun _ => rfl) fun _ hs => hs
    have hasks' : Asks w (c'.setClient fun k =>
        { k with headerBuf := k.headerBuf ++ [b], headerLen := k.headerLen + 1 }) := fun q hq => by
      refine hasks q ?_
      rw [← hq]
      change requestOf (c'.client.headerBuf ++ ([b] ++ incoming c'.script.rx))
        = requestOf (c'.client.headerBuf ++ [b] ++ incoming c'.script.rx)
      rw [List.append_assoc]
    dsimp only
    generalize c'.setClient _ = c'' at hstored hasks' ⊢
    generalize d'.setClient _ = d'' at hstored ⊢
    split_ifs
    · rw [parseHeaderAndTransition_eq, parseHeaderAndTransition_eq, hstored.client]
      cases hq : requestOf c''.client.headerBuf with
      | none => exact .ret ⟨[], hstored⟩
      | some q =>
        exact .ret ⟨w, hstored.serveRequest hw hlen (hasks' q (requestOf_append hq _))⟩
    · exact .again ⟨hstored, hasks'⟩

theorem readHeader (h : Alike t w [] o c d) (hasks : Asks w c) :
    ∃ n, Alike t w n o (readHeader c) (readHeader d) := by
  have hrel : Pass.Rel (fun c d => Alike t w [] o c d ∧ Asks w c)
      (fun c d => ∃ n, Alike t w n o c d)
      (exec FileServer.readHeaderPass (fun c => rxWeight c.script.rx) c)
      (exec FileServer.readHeaderPass (fun c => rxWeight c.script.rx) d) :=
    exec_rel (fun _ _ h => h.1.readHeaderPass hw hlen h.2) (fun _ _ h => by rw [h.1.script])
      ⟨h, hasks⟩
  unfold FileServer.readHeader
  generalize exec FileServer.readHeaderPass _ c = p at hrel ⊢
  generalize exec FileServer.readHeaderPass _ d = q at hrel ⊢
  cases hrel with
  | again h' => exact ⟨[], h'.1⟩
  | leave h' =>
    obtain ⟨h', -⟩ := h'
    refine ⟨[], ?_⟩
    dsimp only
    rw [h'.client]
    split_ifs
    · exact h'.prepareAndSendResponse hw hlen .error errBadRequest
    · exact h'
  | ret h' => exact h'

/-! #### Events -/

theorem handleReadEvent (h : Alike t w n o c d)
    (hheader : c.client.state = .recvHeader → n = [] ∧ Asks w c) :
    ∃ n, Alike t w n o (handleReadEvent c) (handleReadEvent d) := by
  have hself : c.client.state.Uploads → n = w := fun hs =>
    h.own.named.resolve_right fun ⟨_, _, hno⟩ => hno hs
  unfold FileServer.handleReadEvent
  rw [h.client]
  cases hs : c.client.state with
  | recvHeader =>
    obtain ⟨rfl, hasks⟩ := hheader hs
    exact h.readHeader hw hlen hasks
  | recvPutSize =>
    obtain rfl := hself (.inl hs)
    exact ⟨_, h.recvPutSize hw hlen⟩
  | recvPutData =>
    obtain rfl := hself (.inr hs)
    exact ⟨_, h.recvPutData hw hlen⟩
  | _ => exact ⟨n, h⟩

theorem handleWriteEvent (h : Alike t w n o c d) :
    Alike t w n o (handleWriteEvent c) (handleWriteEvent d) := by
  unfold FileServer.handleWriteEvent
  rw [h.client]
  cases c.client.state with
  | sendOk => exact h.executeSimpleResponseWrite hw hlen
  | sendError => exact h.executeSimpleResponseWrite hw hlen
  | sendListData => exact h.sendListData hw hlen
  | sendGetSize => exact h.sendGetSize hw hlen
  | sendGetData => exact h.sendGetData hw hlen
  | _ => exact h

/-- An event for one handler. -/
theorem serveEvent (h : Alike t w n o c d) (hlive : c.freed = false)
    (hheader : c.client.state = .recvHeader → n = [] ∧ Asks w c) {ev : Events}
    (hone : ¬ (ev.read = true ∧ ev.write = true)) :
    ∃ n, Alike t w n o (serveEvent c ev) (serveEvent d ev) := by
  have hlive' : d.freed = false := by
    rw [← hlive]
    exact congrArg Conn.freed h.conn.symm
  unfold FileServer.serveEvent
  by_cases he : ev.error = true
  · rw [if_pos he, if_pos he]
    exact ⟨n, h.closeAndCleanup hw hlen⟩
  rw [if_neg he, if_neg he]
  by_cases hr : ev.read = true
  · have hno : ¬ ev.write = true := fun hwr => hone ⟨hr, hwr⟩
    dsimp only
    rw [if_pos hr, if_pos hr, if_neg hno, if_neg hno]
    exact h.handleReadEvent hw hlen hheader
  · dsimp only
    rw [if_neg hr, if_neg hr, hlive, hlive', h.client]
    simp only [Bool.false_eq_true, if_false]
    split_ifs
    · exact ⟨n, h.handleWriteEvent hw hlen⟩
    · exact ⟨n, h⟩
    · exact ⟨n, h⟩

end Handlers

end Alike

end FileServer
