/-
  The client program and the server together.

  A `Session` is a run of the client program and the connection at the server that it
  talks to.  The network is free to cut both streams anywhere: the server receives what
  the socket of the client took, the client what the server sent.  `clients_see_store`:
  each user sees what the ordered map of names and contents says.
-/
import FileServer.Equiv.Uploader
import FileServer.Sequential

namespace FileServer

/-! ### Users -/

/-- What a user asks of the client program. -/
inductive Command
  | get (remote : Path)
  | put (remote : Path) (file : LocalFile)
  | delete (remote : Path)
  | list

/-- What it asks of the server. -/
def Command.op : Command → Op
  | .get remote => .get remote
  | .put remote file => .put remote file.stream.text
  | .delete remote => .delete remote
  | .list => .list

/-- What a user gets: messages, and the local file or the standard output. -/
structure Answer where
  messages : List Message
  output : Option (List Byte)
  deriving DecidableEq

/-- The answer to a name that the server does not have. -/
def Answer.noSuchFile : Answer := ⟨[.report (.errorMessage (ascii "No such file"))], none⟩

namespace Store

/-- What the map says to a command. -/
def answer (m : Store) : Command → Answer
  | .get remote => (m.get remote).elim .noSuchFile fun body => ⟨[], some body⟩
  | .put _ _ => ⟨[.success], none⟩
  | .delete remote => (m.get remote).elim .noSuchFile fun _ => ⟨[.success], none⟩
  | .list => ⟨[], some (joinNames m.keys)⟩

/-- What it says to commands that come one after the other. -/
def answerAll : Store → List Command → List Answer
  | _, [] => []
  | m, q :: qs => m.answer q :: answerAll (m.serve q.op).2 qs

end Store

/-! ### Runs of the client program -/

/-- A run of the client program.  `mem` is the memory from the start of `request_buffer` on. -/
structure ClientRun where
  command : Command
  mem : Nat → Byte
  around : Surroundings

namespace ClientRun

/-- What the socket takes. -/
def sent (x : ClientRun) : List Byte :=
  match x.command with
  | .get remote => takenFrom x.mem (writeAll (handleGet remote).count 0 x.around.request).writes
  | .put remote file => (Uploader.handlePut x.mem remote file x.around).sent
  | .delete remote => (Uploader.handleDelete x.mem remote x.around).sent
  | .list => (writeAll listCall.count 0 x.around.request).taken listCall.stored

/-- What the user gets. -/
def answer (x : ClientRun) : Answer :=
  match x.command with
  | .get remote =>
    let o := Receiver.handleGet remote x.around
    ⟨o.reports.map .report, o.output⟩
  | .put remote file => ⟨(Uploader.handlePut x.mem remote file x.around).messages, none⟩
  | .delete remote => ⟨(Uploader.handleDelete x.mem remote x.around).messages, none⟩
  | .list =>
    let o := Receiver.handleList x.around
    ⟨o.reports.map .report, o.output⟩

end ClientRun

/-- The command can be put into a request, and the file of an upload stays as `stat` found it. -/
def Command.Ok (mem : Nat → Byte) : Command → Prop
  | .get remote => Nameable remote ∧ Holds mem (handleGet remote).stored
  | .put remote file => Nameable remote ∧ Holds mem (handlePut remote).stored ∧
      file.opens = true ∧ file.size = some file.stream.text.length ∧
      file.stream.text.length < 2 ^ 64
  | .delete remote => Nameable remote ∧ Holds mem (handleDelete remote).stored
  | .list => True

/-- No call of the client fails. -/
structure ClientRun.Ok (x : ClientRun) : Prop where
  command : x.command.Ok x.mem
  request : .err ∉ x.around.request
  openOk : x.around.openOk = true
  writes : .err ∉ x.around.writes
  mallocOk : x.around.mallocOk = true

/-- A run of the client program, and its connection at the server. -/
structure Session where
  client : ClientRun
  fd : Int
  script : Script
  events : List Events

/-- The connection. -/
def Session.visit (x : Session) : Visit := ⟨x.fd, x.script, x.events, x.client.command.op⟩

/-- The server receives what the client sent, in any pieces, and nothing fails. -/
structure Session.Ok (x : Session) : Prop where
  client : x.client.Ok
  clean : Clean x.script
  network : incoming x.script.rx = x.client.sent
  events : ∀ ev ∈ x.events, ev.One ∧ ev.error = false

section Requests

variable {x : ClientRun} {e : Surroundings} {mem : Nat → Byte} {remote : Path} {file : LocalFile}

/-! ### Requests -/

theorem writeAll_errors_eq_nil {items : List SendItem} (h : .err ∉ items) (count : Nat) :
    (writeAll count 0 items).errors = [] := by
  rcases writeAll_end (memoryOf []) items (Nat.zero_le count) with ⟨hresult, -⟩ | ⟨-, herr, -⟩
  · exact if_neg (by omega)
  · exact absurd herr h

theorem writeAll_left_noErr {items : List SendItem} (h : .err ∉ items) (count : Nat) :
    .err ∉ (writeAll count 0 items).left :=
  fun hmem => h (writeAll_left_subset _ _ _ hmem)

/-- Where no call fails the transfer has nothing to report. -/
theorem transfer_reports_eq_nil {items : List SendItem} (h : .err ∉ items) {n : Nat}
    (hsize : file.size = some n) : (transfer mem remote file items).reports = [] := by
  have hline := writeAll_left_noErr h (handlePut remote).count
  obtain ⟨u, ⟨hreports, -⟩, hexec, hfinal⟩ := Loop.exec_spec transferPass_decreases
    (I := fun u => u.reports = [] ∧ .err ∉ u.request)
    (fun u u' ⟨hreports, hrequest⟩ hpass => by
      unfold transferPass at hpass
      dsimp only at hpass
      split_ifs at hpass
      obtain rfl := Loop.Pass.again.inj hpass
      refine ⟨?_, writeAll_left_noErr hrequest _⟩
      dsimp only
      rw [hreports, writeAll_errors_eq_nil hrequest, List.append_nil])
    (s :=
      { stream := file.stream
        request := (writeAll sizeLen 0 (writeAll (handlePut remote).count 0 items).left).left
        sent := takenFrom mem (writeAll (handlePut remote).count 0 items).writes ++
          (writeAll sizeLen 0 (writeAll (handlePut remote).count 0 items).left).taken
            (sizeBytes (getFileSize file))
        reports := file.sizeErrors ++ (writeAll (handlePut remote).count 0 items).errors ++
          (writeAll sizeLen 0 (writeAll (handlePut remote).count 0 items).left).errors })
    ⟨by
      dsimp only
      rw [writeAll_errors_eq_nil h, writeAll_errors_eq_nil hline, LocalFile.sizeErrors,
        if_neg (by rw [hsize]; exact Option.some_ne_none n)]
      rfl,
    writeAll_left_noErr hline _⟩
  unfold transfer
  dsimp only
  rw [hexec]
  unfold transferPass at hfinal ⊢
  dsimp only at hfinal ⊢
  split_ifs at hfinal ⊢
  · exact hfinal.elim
  · exact hreports

theorem requestText_eq (verbStr : List Byte) (remote : Path) :
    requestText verbStr remote = nameLine verbStr remote ++ [newline] := rfl

/-- **The client sends what it is asked for**, in the words of the server. -/
theorem ClientRun.Ok.sends (h : x.Ok) : x.command.op.Sends x.sent := by
  have hcommand := h.command
  unfold ClientRun.sent
  unfold Command.Ok at hcommand
  cases hx : x.command with
  | get remote =>
    rw [hx] at hcommand
    obtain ⟨hw, hmem⟩ := hcommand
    have hlen := hw.length
    have hline := relayed_requestCall (ascii "GET") hmem
      (by rw [requestBufferSize, show (ascii "GET").length = 3 by decide]; omega) x.around.request
    have hall := hline.whole_iff.mpr (by
      rw [writeAll_errors_eq_nil h.request]
      exact List.not_mem_nil)
    have hsends := Op.Sends.get hw []
    rw [List.append_nil, ← requestText_eq, ← hall] at hsends
    exact hsends
  | put remote file =>
    rw [hx] at hcommand
    obtain ⟨hw, hmem, hopen, hsize, hlt⟩ := hcommand
    have hlen := hw.length
    have hput := relayed_put hmem (by omega) file x.around.request
    have hall := hput.whole_iff.mpr (by
      rw [transfer_reports_eq_nil h.request hsize]
      exact List.not_mem_nil)
    -- the pieces that the client writes are the line, the size and the body, one behind the other
    have hsends := Op.Sends.put hw hlt
    have htext : putText remote file = nameLine (ascii "PUT") remote ++ [newline] ++
        (sizeBytes file.stream.text.length ++ file.stream.text) := by
      rw [putText, requestText_eq, List.append_assoc, getFileSize, hsize]
      rfl
    rw [← htext, ← hall] at hsends
    unfold Uploader.handlePut
    dsimp only
    rw [if_neg (by rw [hopen]; decide)]
    exact hsends
  | delete remote =>
    rw [hx] at hcommand
    obtain ⟨hw, hmem⟩ := hcommand
    have hlen := hw.length
    have hline := relayed_delete hmem (by omega) x.around.request
    have hall := hline.whole_iff.mpr (by
      rw [writeAll_errors_eq_nil h.request]
      exact List.not_mem_nil)
    have hsends := Op.Sends.delete hw []
    rw [List.append_nil, ← requestText_eq, ← hall] at hsends
    exact hsends
  | list =>
    have hall := (relayed_writeAll listCall.stored x.around.request).whole_iff.mpr (by
      rw [writeAll_errors_eq_nil h.request]
      exact List.not_mem_nil)
    have hsends := Op.Sends.list []
    rw [List.append_nil, show ascii "LIST" ++ [newline] = listCall.stored by decide, ← hall]
      at hsends
    exact hsends

/-! ### Responses -/

variable {payload msg : List Byte}

theorem okLine_isPrefix_reply (payload : List Byte) :
    okLine <+: okLine ++ (sizeBytes payload.length ++ payload) := List.prefix_append ..

theorem promises_reply (hlen : payload.length < 2 ^ 64) :
    Promises (okLine ++ (sizeBytes payload.length ++ payload)) payload.length payload :=
  ⟨hlen, (List.append_assoc ..).symm⟩

/-- A download that is there arrives in the local file. -/
theorem handleGet_found (hlen : payload.length < 2 ^ 64)
    (h : ResponseArrives (okLine ++ (sizeBytes payload.length ++ payload)) e)
    (hrequest : .err ∉ e.request) (hopen : e.openOk = true) (hwrites : .err ∉ e.writes) :
    Receiver.handleGet remote e = ⟨[], some payload⟩ := by
  have hspec : ∃ o : ClientResult, Receiver.handleGet remote e
      = o.after (writeAll (handleGet remote).count 0 e.request).errors ∧
      o = ⟨[], some payload⟩ :=
    handle_spec (P := fun o => o = ⟨[], some payload⟩) (handleGet remote) h
    (fun rest s hrest harriving hbehind => by
      rw [hrest] at h
      rcases receiveFile_cases h hopen hwrites harriving hbehind with ⟨hshort, -⟩ |
        ⟨n, payload', hpromises, heq⟩
      · have hsize := List.append_cancel_left hrest
        rw [← hsize, List.length_append, length_sizeBytes, sizeLen] at hshort
        omega
      · rw [← hrest] at hpromises
        obtain ⟨rfl, rfl⟩ := (promises_reply hlen).unique hpromises
        rw [heq, payloadReports, if_neg (Nat.lt_irrefl _), if_pos rfl, List.take_length])
    fun hnotOk => absurd (okLine_isPrefix_reply payload) hnotOk
  obtain ⟨o, heq, rfl⟩ := hspec
  rw [heq, writeAll_errors_eq_nil hrequest]
  rfl

/-- A list arrives on the standard output. -/
theorem handleList_listed (hlen : payload.length < 2 ^ 63)
    (h : ResponseArrives (okLine ++ (sizeBytes payload.length ++ payload)) e)
    (hrequest : .err ∉ e.request) (hmalloc : e.mallocOk = true) (hwrites : .err ∉ e.writes) :
    Receiver.handleList e = ⟨[], some payload⟩ := by
  have hlt : payload.length < 2 ^ 64 := by omega
  have hspec : ∃ o : ClientResult, Receiver.handleList e
      = o.after (writeAll listCall.count 0 e.request).errors ∧ o = ⟨[], some payload⟩ :=
    handle_spec (P := fun o => o = ⟨[], some payload⟩) listCall h
    (fun rest s hrest harriving hbehind => by
      obtain rfl := List.append_cancel_left hrest
      obtain ⟨herrors, hsize⟩ := readSize_cases harriving hbehind
      unfold receiveList
      dsimp only
      rw [herrors, ClientResult.after_nil]
      rcases hsize with ⟨hshort, -⟩ | ⟨n, payload', hn, hfield, hresult, hvalue, h', hbehind'⟩
      · rw [List.length_append, length_sizeBytes, sizeLen] at hshort
        omega
      · have hpromises : Promises (okLine ++ (sizeBytes payload.length ++ payload)) n payload' :=
          ⟨hn, by rw [hfield, List.append_assoc]⟩
        obtain ⟨rfl, rfl⟩ := (promises_reply hlt).unique hpromises
        rw [if_neg (not_not.mpr hresult), hvalue]
        -- an empty list is no reason to allocate: `handle_list` returns before `malloc`
        by_cases hzero : payload.length = 0
        · rw [if_pos hzero, List.length_eq_zero_iff.mp hzero]
        · obtain ⟨hbuffer, hresult', h'', hbehind''⟩ := h'.readAll payload.length
          rw [List.take_length] at hbuffer hresult' hbehind'' h''
          have hmallocs : mallocs e payload.length = true := by
            unfold mallocs
            rw [hmalloc, decide_eq_true hlen]
            rfl
          have hwrote := writeAll_taken payload e.writes
          have hend : (okLine ++ sizeBytes payload.length ++ payload).length
              = okLine.length + sizeLen + payload.length := by
            rw [List.length_append, length_okLine_sizeBytes]
          -- nothing stands behind the payload, so no extra byte is reported
          have hextra := reportExtra_eq h'' (hbehind'' (Nat.le_refl _) hbehind')
            (by rw [hend]; exact h.extra _ _ (promises_reply hlt) (Nat.le_refl _))
          rw [if_neg hzero, if_neg (by rw [hmallocs]; decide),
            Reading.allErrors_of_result hresult', ClientResult.after_nil, hresult',
            if_neg (by omega), hbuffer, hextra, List.drop_length, if_pos rfl, List.append_nil,
            writeAll_errors_eq_nil hwrites]
          rcases hwrote with ⟨-, htaken⟩ | ⟨-, herr, -⟩
          · rw [htaken]
          · exact absurd herr hwrites)
    fun hnotOk => absurd (okLine_isPrefix_reply payload) hnotOk
  obtain ⟨o, heq, rfl⟩ := hspec
  rw [heq, writeAll_errors_eq_nil hrequest]
  rfl

/-- Of a name that is not there the user is told, whatever the command. -/
theorem handle_noSuchFile {call : RequestCall} {onOk : Script → ClientResult}
    (h : ResponseArrives (responseText .error errNoSuchFile) e) (hrequest : .err ∉ e.request) :
    handle call e onOk = ⟨[.errorMessage (ascii "No such file")], none⟩ := by
  have hnotOk : ¬ okLine <+: responseText .error errNoSuchFile := by decide
  have hspec : ∃ o : ClientResult, handle call e onOk
      = o.after (writeAll call.count 0 e.request).errors ∧
      o = ⟨[.errorMessage (ascii "No such file")], none⟩ :=
    handle_spec (P := fun o => o = ⟨[.errorMessage (ascii "No such file")], none⟩) call h
    (fun rest s hrest _ _ => absurd (hrest ▸ List.prefix_append ..) hnotOk)
    fun _ => by
      have hverdict : (verdictOf (responseText .error errNoSuchFile)).reports
          (responseText .error errNoSuchFile) = [.errorMessage (ascii "No such file")] := by
        decide
      rw [hverdict]
  obtain ⟨o, heq, rfl⟩ := hspec
  rw [heq, writeAll_errors_eq_nil hrequest]
  rfl

end Requests

/-! ### Answers -/

/-- A map that came about by `k` requests at most. -/
structure Store.Small (k : Nat) (m : Store) : Prop where
  count : m.keys.length ≤ k
  names : ∀ w ∈ m.keys, w.length ≤ 255
  bodies : ∀ w body, m.get w = some body → body.length < 2 ^ 64

theorem length_joinNames_le {ws : List Path} (h : ∀ w ∈ ws, w.length ≤ 255) :
    (joinNames ws).length ≤ 256 * ws.length := by
  induction ws with
  | nil => exact Nat.zero_le _
  | cons w ws ih =>
    have hw := h w (List.mem_cons_self ..)
    have hws := ih fun v hv => h v (List.mem_cons_of_mem _ hv)
    rw [List.length_cons]
    by_cases hnil : ws = []
    · rw [hnil, joinNames_singleton]
      omega
    · rw [joinNames_cons w hnil, List.length_append, List.length_cons]
      omega

section Answers

variable {k : Nat} {m : Store} {op : Op} {bytes : List Byte} {x : ClientRun} {xs : List Session}

theorem Store.Small.put (h : m.Small k) {w : Path} {body : List Byte} (hw : w.length ≤ 255)
    (hbody : body.length < 2 ^ 64) : Store.Small (k + 1) (OrderedMap.put m w body) := by
  have hcount := h.count
  refine ⟨?_, fun v hv => ?_, fun v body' hget => ?_⟩
  · rw [OrderedMap.keys_put]
    split_ifs
    · omega
    · rw [List.length_append, List.length_singleton]
      omega
  · rw [OrderedMap.keys_put] at hv
    split_ifs at hv
    · exact h.names v hv
    · rcases List.mem_append.mp hv with hv | hv
      · exact h.names v hv
      · rwa [List.mem_singleton.mp hv]
  · rw [OrderedMap.get_put] at hget
    split_ifs at hget
    · rwa [← Option.some.inj hget]
    · exact h.bodies v body' hget

theorem Store.Small.delete (h : m.Small k) (w : Path) :
    Store.Small k (OrderedMap.delete m w) := by
  have hsub : (OrderedMap.delete m w).keys.Sublist m.keys := List.filter_sublist.map Prod.fst
  refine ⟨hsub.length_le.trans h.count, fun v hv => h.names v (hsub.subset hv),
    fun v body hget => ?_⟩
  rw [OrderedMap.get_delete] at hget
  split_ifs at hget
  exact h.bodies v body hget

/-- A request makes the map larger by one entry at most. -/
theorem Store.Small.serve (h : m.Small k) (hsends : op.Sends bytes) :
    Store.Small (k + 1) (m.serve op).2 := by
  have hmore : m.Small (k + 1) := ⟨Nat.le_succ_of_le h.count, h.names, h.bodies⟩
  cases hsends with
  | put hw hsize => exact h.put hw.length hsize
  | get hw =>
    unfold Store.serve
    dsimp only
    split <;> exact hmore
  | delete hw =>
    unfold Store.serve
    dsimp only
    split_ifs
    · exact hmore.delete _
    · exact hmore
  | list => exact hmore
  | badLine => exact hmore
  | tooLong => exact hmore

/-- **One run of the client program**: the response of the map gives the answer of the map. -/
theorem ClientRun.Ok.answer_eq (h : x.Ok) (hsmall : m.Small k) (hk : 256 * k < 2 ^ 63)
    (harrives : ResponseArrives (m.serve x.command.op).1 x.around) :
    x.answer = m.answer x.command := by
  have hcommand := h.command
  unfold ClientRun.answer Store.answer
  unfold Command.Ok at hcommand
  cases hx : x.command with
  | get remote =>
    rw [hx] at harrives
    unfold Command.op Store.serve at harrives
    dsimp only at harrives ⊢
    cases hget : m.get remote with
    | some body =>
      rw [hget] at harrives
      rw [handleGet_found (hsmall.bodies _ _ hget) harrives h.request h.openOk h.writes]
      rfl
    | none =>
      rw [hget] at harrives
      unfold Receiver.handleGet
      rw [handle_noSuchFile harrives h.request]
      rfl
  | put remote file =>
    rw [hx] at harrives hcommand
    obtain ⟨-, -, hopen, hsize, -⟩ := hcommand
    dsimp only
    rw [handlePut_messages hopen harrives.delivers harrives.blocking,
      transfer_reports_eq_nil h.request hsize]
    rfl
  | delete remote =>
    rw [hx] at harrives
    unfold Command.op Store.serve at harrives
    dsimp only at harrives ⊢
    rw [handleDelete_messages harrives.delivers harrives.blocking,
      writeAll_errors_eq_nil h.request]
    cases hget : m.get remote with
    | some body =>
      have hmem : remote ∈ m.keys := by
        by_contra hno
        exact Option.some_ne_none _ (hget.symm.trans (OrderedMap.get_eq_none.mpr hno))
      rw [if_pos hmem]
      rfl
    | none =>
      have hmessage : acknowledgement (responseText .error errNoSuchFile)
          = .report (.errorMessage (ascii "No such file")) := by decide
      rw [if_neg (OrderedMap.get_eq_none.mp hget)]
      exact congrArg (fun r => Answer.mk [r] none) hmessage
  | list =>
    rw [hx] at harrives
    have hlen := length_joinNames_le hsmall.names
    have hcount := hsmall.count
    dsimp only
    rw [handleList_listed (by omega) harrives h.request h.mallocOk h.writes]
    rfl

/-- The runs, one after the other. -/
theorem answers_eq (hxs : ∀ x ∈ xs, x.client.Ok) (hsmall : m.Small k)
    (hmany : 256 * (k + xs.length) < 2 ^ 63)
    (harrives : List.Forall₂ (fun x bytes => ResponseArrives bytes x.client.around) xs
      (m.serveAll (xs.map fun x => x.client.command.op)).1) :
    xs.map (fun x => x.client.answer) = m.answerAll (xs.map fun x => x.client.command) := by
  induction xs generalizing m k with
  | nil => rfl
  | cons x xs ih =>
    have hx := hxs x (List.mem_cons_self ..)
    rw [List.length_cons] at hmany
    cases harrives with
    | cons hfirst hrest =>
      have hanswer := hx.answer_eq hsmall (by omega) hfirst
      have hnext := ih (fun y hy => hxs y (List.mem_cons_of_mem _ hy)) (hsmall.serve hx.sends)
        (by omega) hrest
      rw [List.map_cons, List.map_cons, hanswer, hnext]
      rfl

theorem Session.Ok.visit {x : Session} (h : x.Ok) : x.visit.Ok where
  clean := h.clean
  sends := by
    change x.client.command.op.Sends (incoming x.script.rx)
    rw [h.network]
    exact h.client.sends
  events := h.events

end Answers

/-- **Clients see a store.** However the network cuts the streams of the requests and of the
replies, users whose client programs run one after the other against the server get what the
ordered map of names and contents has for them: each download brings the last upload of its name,
each list the names there are, and a name that is not there is reported. -/
theorem clients_see_store {k : Disk} (hk : k.Fresh) {xs : List Session} (hxs : ∀ x ∈ xs, x.Ok)
    (hmany : 256 * xs.length < 2 ^ 63)
    (hturn : InTurn (Server.boot k) (xs.map Session.visit))
    (harrives : List.Forall₂ (fun x conn => ResponseArrives conn.sent x.client.around) xs
      ((Server.boot k).serveVisits (xs.map Session.visit)).conns) :
    xs.map (fun x => x.client.answer) = Store.answerAll [] (xs.map fun x => x.client.command) := by
  have hvisits : ∀ v ∈ xs.map Session.visit, v.Ok :=
    List.forall_mem_map.mpr fun x hx => (hxs x hx).visit
  obtain ⟨-, hsent⟩ := (Stores.boot hk).visits hvisits hturn
  have hreplies : List.Forall₂ (fun x bytes => ResponseArrives bytes x.client.around) xs
      (((Server.boot k).serveVisits (xs.map Session.visit)).conns.map Conn.sent) :=
    List.forall₂_map_right_iff.mpr harrives
  rw [hsent, List.map_map] at hreplies
  have hsmall : Store.Small 0 [] := ⟨Nat.le_refl _, fun w hw => (by cases hw), fun w body hget =>
    (by cases hget)⟩
  exact answers_eq (fun x hx => (hxs x hx).client) hsmall (by omega) hreplies

theorem eintr_notMem_pushBack {rx : List RxItem} (h : .eintr ∉ rx) (bs : List Byte) :
    .eintr ∉ pushBack bs rx := by
  cases bs with
  | nil => exact h
  | cons b bs =>
    rw [pushBack, List.mem_cons, not_or]
    exact ⟨by simp, h⟩

theorem eintr_notMem_afterBytes {rx : List RxItem} (h : .eintr ∉ rx) (k : Nat) :
    .eintr ∉ afterBytes k rx := by
  have hwait : ∀ rx : List RxItem, waitData rx ⊆ rx := by
    intro rx
    induction rx with
    | nil => exact List.Subset.refl _
    | cons x rx ih =>
      cases x with
      | eagain => exact List.subset_cons_of_subset _ ih
      | eintr => exact List.subset_cons_of_subset _ ih
      | _ => exact List.Subset.refl _
  induction k generalizing rx with
  | zero => exact h
  | succ k ih =>
    have hrest : .eintr ∉ waitData rx := fun hmem => h (hwait rx hmem)
    unfold afterBytes
    generalize waitData rx = rest at hrest ⊢
    split
    · rw [List.mem_cons, not_or] at hrest
      exact ih (eintr_notMem_pushBack hrest.2 _)
    · exact hrest

/-- A response that arrives in two pieces, without interrupted reads. -/
theorem ResponseArrives.twoPieces {bytes bs bs' : List Byte} (hbytes : bs ++ bs' = bytes)
    {e : Surroundings} (hrx : e.socket.rx = pushBack bs (pushBack bs' [.eof])) :
    ResponseArrives bytes e where
  delivers := by
    have h := ((Delivers.eof []).pushBack bs').pushBack bs
    rw [List.append_nil, hbytes] at h
    rwa [hrx]
  blocking := by
    rw [hrx]
    cases bs <;> cases bs' <;> simp [pushBack]
  extra := fun n payload _ _ heq => by
    have hno : .eintr ∉ e.socket.rx := by
      rw [hrx]
      exact eintr_notMem_pushBack (eintr_notMem_pushBack (by simp) bs') bs
    exact eintr_notMem_afterBytes hno _ (List.mem_of_head? heq)

/-- Surroundings in which the response arrives in two pieces, the first of two bytes, and the request
is taken with an interruption. -/
def inTwoPieces (bytes : List Byte) : Surroundings :=
  ⟨[.took 2, .eintr], ⟨pushBack (bytes.take 2) (pushBack (bytes.drop 2) [.eof]), [], [], []⟩, true,
    [.took 1], true⟩

/-- An upload, a list, a download, and a name that is not there. -/
def fourSessions : List Session :=
  [⟨⟨.put (ascii "x") ⟨true, some 2, ⟨[97, 98], []⟩⟩, memoryOf (ascii "PUT x\n"),
      inTwoPieces okLine⟩, 5,
      ⟨pushBack (ascii "PUT x\n" ++ sizeBytes 2 ++ [97]) [.eagain, .data 98 []], [.room 9], [], []⟩,
      [.onRead, .onRead, .onRead]⟩,
    ⟨⟨.list, memoryOf [], inTwoPieces (okLine ++ sizeBytes 1 ++ ascii "x")⟩, 5,
      ⟨pushBack (ascii "LIST\n") [], [.room 9, .room 99], [], []⟩, [.onRead, .onWrite]⟩,
    ⟨⟨.get (ascii "x"), memoryOf (ascii "GET x\n"),
      inTwoPieces (okLine ++ (sizeBytes 2 ++ [97, 98]))⟩, 6,
      ⟨pushBack (ascii "GET x\n") [], [.room 9, .room 9, .room 9], [], []⟩,
      [.onRead, .onWrite, .onWrite, .onWrite]⟩,
    ⟨⟨.delete (ascii "y"), memoryOf (ascii "DELETE y\n"),
      inTwoPieces (responseText .error errNoSuchFile)⟩, 5,
      ⟨pushBack (ascii "DELETE y\n") [], [.room 99], [], []⟩, [.onRead]⟩]

theorem fourSessions_ok : ∀ x ∈ fourSessions, x.Ok := by
  have hx : Nameable (ascii "x") := ⟨by decide, by decide, by decide, by decide⟩
  have hy : Nameable (ascii "y") := ⟨by decide, by decide, by decide, by decide⟩
  simp only [fourSessions, List.forall_mem_cons]
  refine ⟨⟨⟨⟨hx, by unfold Holds; decide, rfl, rfl, by decide⟩, by decide, rfl, by decide, rfl⟩,
      ⟨by decide, by decide, rfl, rfl⟩, by decide +kernel, by decide⟩,
    ⟨⟨trivial, by decide, rfl, by decide, rfl⟩, ⟨by decide, by decide, rfl, rfl⟩,
      by decide +kernel, by decide⟩,
    ⟨⟨⟨hx, by unfold Holds; decide⟩, by decide, rfl, by decide, rfl⟩,
      ⟨by decide, by decide, rfl, rfl⟩, by decide +kernel, by decide⟩,
    ⟨⟨⟨hy, by unfold Holds; decide⟩, by decide, rfl, by decide, rfl⟩,
      ⟨by decide, by decide, rfl, rfl⟩, by decide +kernel, by decide⟩, fun x hx => by cases hx⟩

theorem clients_see_store_fourSessions :
    fourSessions.map (fun x => x.client.answer)
      = [⟨[.success], none⟩, ⟨[], some (ascii "x")⟩, ⟨[], some [97, 98]⟩, .noSuchFile] := by
  have hturn : ∀ pre ∈ (fourSessions.map Session.visit).inits,
      ((Server.boot bareDisk).serveVisits pre).Closed := by
    decide +kernel
  have hsent : ((Server.boot bareDisk).serveVisits (fourSessions.map Session.visit)).conns.map
      Conn.sent = [okLine, okLine ++ sizeBytes 1 ++ ascii "x",
        okLine ++ (sizeBytes 2 ++ [97, 98]), responseText .error errNoSuchFile] := by
    decide +kernel
  have harrives : List.Forall₂ (fun x bytes => ResponseArrives bytes x.client.around) fourSessions
      (((Server.boot bareDisk).serveVisits (fourSessions.map Session.visit)).conns.map
        Conn.sent) := by
    rw [hsent]
    exact .cons (.twoPieces (List.take_append_drop 2 _) rfl)
      (.cons (.twoPieces (List.take_append_drop 2 _) rfl)
        (.cons (.twoPieces (List.take_append_drop 2 _) rfl)
          (.cons (.twoPieces (List.take_append_drop 2 _) rfl) .nil)))
  have h := clients_see_store bareDisk_fresh fourSessions_ok (by decide)
    (fun pre hpre => hturn pre ((List.mem_inits _ _).mpr hpre))
    (List.forall₂_map_right_iff.mp harrives)
  exact h.trans (by decide +kernel)

end FileServer
