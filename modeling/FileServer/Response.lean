/-
  What the client makes of a response, against the format of the protocol.

  `verdictOf` decodes a response by its format: the status line, the size field and the
  payload that the size promises.  `download_verdict_exact`: for every stream and every
  way it arrives `handle_get` reports this verdict and stores what there is of the
  payload.  `handle_list` reads the same format, except that it returns at a size of 0
  without the read behind the payload (`list_verdict_iff`).
-/
import FileServer.Equiv.Receiver

namespace FileServer

/-! ### The format -/

/-- The response promises a payload of `n` bytes, and these bytes stand behind the size field. -/
def Promises (bytes : List Byte) (n : Nat) (payload : List Byte) : Prop :=
  n < 2 ^ 64 ∧ bytes = okLine ++ sizeBytes n ++ payload

/-- What can be said of a response. -/
inductive ResponseVerdict
  | connectionClosed | serverError | tooLittleData | tooMuchData | accepted | invalidResponse
  deriving DecidableEq

namespace ResponseVerdict

/-- The responses of which it is said. -/
def Fits (bytes : List Byte) : ResponseVerdict → Prop
  | connectionClosed => bytes = []
  | serverError => ∃ b rest, bytes = errorLine ++ b :: rest
  | tooLittleData => (∃ rest, bytes = okLine ++ rest ∧ rest.length < sizeLen) ∨
      ∃ n payload, Promises bytes n payload ∧ payload.length < n
  | tooMuchData => ∃ n payload, Promises bytes n payload ∧ n < payload.length
  | accepted => ∃ n payload, Promises bytes n payload ∧ payload.length = n
  | invalidResponse => bytes ≠ [] ∧ (¬ ∃ b rest, bytes = errorLine ++ b :: rest) ∧
      ¬ ∃ rest, bytes = okLine ++ rest

/-- How it is reported. -/
def reports (bytes : List Byte) : ResponseVerdict → List Report
  | connectionClosed => [.connectionClosed]
  | serverError => [.errorMessage (messageOf (bytes.drop errorLine.length))]
  | tooLittleData => [.tooLittleData]
  | tooMuchData => [.receivedTooMuchData]
  | accepted => []
  | invalidResponse => [.invalidResponse]

end ResponseVerdict

/-- The verdict on a payload. -/
def payloadVerdict (n : Nat) (payload : List Byte) : ResponseVerdict :=
  if payload.length < n then .tooLittleData
  else if payload.length = n then .accepted else .tooMuchData

/-- The verdict on a response. -/
def verdictOf (bytes : List Byte) : ResponseVerdict :=
  if bytes = [] then .connectionClosed
  else if errorLine <+: bytes ∧ bytes ≠ errorLine then .serverError
  else if okLine <+: bytes then
    let rest := bytes.drop okLine.length
    if rest.length < sizeLen then .tooLittleData
    else payloadVerdict (ofLeBytes (rest.take sizeLen)) (rest.drop sizeLen)
  else .invalidResponse

section Format

variable {bytes payload payload' rest : List Byte} {n n' : Nat} {v : ResponseVerdict}

theorem not_errorLine_isPrefix_okLine : ¬ errorLine <+: okLine ++ rest := by
  rintro ⟨rest', h⟩
  exact absurd (List.cons.inj h).1 (by decide)

theorem Promises.unique (h : Promises bytes n payload) (h' : Promises bytes n' payload') :
    n = n' ∧ payload = payload' := by
  have heq := h.2.symm.trans h'.2
  rw [List.append_assoc, List.append_assoc] at heq
  obtain ⟨hsize, hpayload⟩ := List.append_inj (List.append_cancel_left heq)
    ((length_sizeBytes n).trans (length_sizeBytes n').symm)
  have hn := congrArg ofLeBytes hsize
  rw [ofLeBytes_sizeBytes h.1, ofLeBytes_sizeBytes h'.1] at hn
  exact ⟨hn, hpayload⟩

theorem Promises.okLine_isPrefix (h : Promises bytes n payload) : okLine <+: bytes := by
  rw [h.2, List.append_assoc]
  exact List.prefix_append ..

theorem Promises.sizeLen_le (h : Promises (okLine ++ rest) n payload) : sizeLen ≤ rest.length := by
  have hlen := congrArg List.length h.2
  simp only [List.length_append, length_sizeBytes] at hlen
  rw [sizeLen]
  omega

/-- The status `ERROR` and a byte behind it. -/
theorem errorLine_isPrefix_iff : (errorLine <+: bytes ∧ bytes ≠ errorLine) ↔
    ∃ b rest, bytes = errorLine ++ b :: rest := by
  constructor
  · rintro ⟨⟨rest, rfl⟩, hne⟩
    cases rest with
    | nil => exact absurd (List.append_nil _) hne
    | cons b rest => exact ⟨b, rest, rfl⟩
  · rintro ⟨b, rest, rfl⟩
    exact ⟨List.prefix_append .., by simp⟩

theorem verdictOf_okLine (rest : List Byte) :
    verdictOf (okLine ++ rest) = if rest.length < sizeLen then .tooLittleData
      else payloadVerdict (ofLeBytes (rest.take sizeLen)) (rest.drop sizeLen) := by
  unfold verdictOf
  rw [if_neg (by simp [okLine_eq]), if_neg fun h => not_errorLine_isPrefix_okLine h.1,
    if_pos (List.prefix_append ..)]
  dsimp only
  rw [List.drop_left]

theorem Promises.verdictOf (h : Promises bytes n payload) :
    verdictOf bytes = payloadVerdict n payload := by
  obtain ⟨hn, rfl⟩ := h
  have hlen : (sizeBytes n).length = sizeLen := length_sizeBytes n
  rw [List.append_assoc, verdictOf_okLine, if_neg, List.take_left' hlen, List.drop_left' hlen,
    ofLeBytes_sizeBytes hn]
  rw [List.length_append, hlen]
  omega

theorem payloadVerdict_fits (h : Promises bytes n payload) :
    (payloadVerdict n payload).Fits bytes := by
  unfold payloadVerdict
  split_ifs with hlt heq
  · exact .inr ⟨n, payload, h, hlt⟩
  · exact ⟨n, payload, h, heq⟩
  · exact ⟨n, payload, h, by omega⟩

/-- Some verdict fits. -/
theorem verdictOf_fits (bytes : List Byte) : (verdictOf bytes).Fits bytes := by
  by_cases hok : okLine <+: bytes
  · obtain ⟨rest, rfl⟩ := hok
    rcases sizeField_cases rest with hlen | ⟨n, payload, hn, rfl⟩
    · rw [verdictOf_okLine, if_pos hlen]
      exact .inl ⟨rest, rfl, hlen⟩
    · have h : Promises (okLine ++ (sizeBytes n ++ payload)) n payload :=
        ⟨hn, (List.append_assoc ..).symm⟩
      rw [h.verdictOf]
      exact payloadVerdict_fits h
  · unfold verdictOf
    rw [if_neg hok]
    split_ifs with hnil herr
    · exact hnil
    · exact errorLine_isPrefix_iff.mp herr
    · exact ⟨hnil, fun h => herr (errorLine_isPrefix_iff.mpr h),
        fun ⟨rest, h⟩ => hok ⟨rest, h.symm⟩⟩

/-- No other verdict fits. -/
theorem ResponseVerdict.Fits.verdictOf_eq (h : v.Fits bytes) : verdictOf bytes = v := by
  cases v with
  | connectionClosed => exact if_pos h
  | serverError =>
    obtain ⟨b, rest, rfl⟩ := h
    unfold verdictOf
    rw [if_neg (by simp), if_pos (errorLine_isPrefix_iff.mpr ⟨b, rest, rfl⟩)]
  | tooLittleData =>
    obtain ⟨rest, rfl, hlen⟩ | ⟨n, payload, h, hlt⟩ := h
    · rw [verdictOf_okLine, if_pos hlen]
    · rw [h.verdictOf, payloadVerdict, if_pos hlt]
  | tooMuchData =>
    obtain ⟨n, payload, h, hlt⟩ := h
    rw [h.verdictOf, payloadVerdict, if_neg (by omega), if_neg (by omega)]
  | accepted =>
    obtain ⟨n, payload, h, heq⟩ := h
    rw [h.verdictOf, payloadVerdict, if_neg (by omega), if_pos heq]
  | invalidResponse =>
    obtain ⟨hnil, herror, hok⟩ := h
    unfold verdictOf
    rw [if_neg hnil, if_neg fun h => herror (errorLine_isPrefix_iff.mp h),
      if_neg fun ⟨rest, h⟩ => hok ⟨rest, h.symm⟩]

/-- **The format has one verdict on each response.** -/
theorem verdictOf_eq_iff : verdictOf bytes = v ↔ v.Fits bytes :=
  ⟨fun h => h ▸ verdictOf_fits bytes, fun h => h.verdictOf_eq⟩

theorem ResponseVerdict.reports_injective (bytes : List Byte) :
    Function.Injective (ResponseVerdict.reports bytes) := by
  intro v v' h
  cases v <;> cases v' <;> first | rfl | cases h

theorem reports_payloadVerdict (bytes : List Byte) (n : Nat) (payload : List Byte) :
    (payloadVerdict n payload).reports bytes = payloadReports n payload := by
  unfold payloadVerdict payloadReports
  split_ifs <;> rfl

end Format

/-! ### The handlers -/

/-- A response arrives: in any segmentation, with interrupted reads wherever the client retries. -/
structure ResponseArrives (bytes : List Byte) (e : Surroundings) : Prop where
  delivers : Delivers e.socket.rx bytes
  blocking : .eagain ∉ e.socket.rx
  extra : ∀ n payload, Promises bytes n payload → n ≤ payload.length →
    (afterBytes (okLine.length + sizeLen + n) e.socket.rx).head? ≠ some .eintr

section Handlers

variable {bytes payload rest : List Byte} {n : Nat} {e eGet eList : Surroundings} {s : Script}

theorem length_okLine_sizeBytes (n : Nat) :
    (okLine ++ sizeBytes n).length = okLine.length + sizeLen := by
  rw [List.length_append]
  exact congrArg _ (length_sizeBytes n)

theorem receiveFile_cases (harrives : ResponseArrives (okLine ++ rest) e) (hopen : e.openOk = true)
    (hwrites : .err ∉ e.writes) (h : Arriving e.socket.rx okLine rest s)
    (hbehind : Behind e.socket.rx okLine s) :
    (rest.length < sizeLen ∧ receiveFile e s = ⟨[.tooLittleData], none⟩) ∨
    ∃ n payload, Promises (okLine ++ rest) n payload ∧
      receiveFile e s = ⟨payloadReports n payload, some (payload.take n)⟩ := by
  obtain ⟨herrors, hsize⟩ := readSize_cases h hbehind
  unfold receiveFile
  dsimp only
  rw [herrors, ClientResult.after_nil]
  rcases hsize with ⟨hlen, hresult⟩ | ⟨n, payload, hn, rfl, hresult, hvalue, h', hbehind'⟩
  · rw [if_pos hresult]
    exact .inl ⟨hlen, rfl⟩
  · have hpromises : Promises (okLine ++ (sizeBytes n ++ payload)) n payload :=
      ⟨hn, (List.append_assoc ..).symm⟩
    rw [if_neg (not_not.mpr hresult), if_neg (by rw [hopen]; decide), hvalue]
    refine .inr ⟨n, payload, hpromises, download_eq h' hbehind' hwrites fun hle => ?_⟩
    rw [length_okLine_sizeBytes]
    exact harrives.extra n payload hpromises hle

theorem receiveList_cases (harrives : ResponseArrives (okLine ++ rest) e)
    (hmalloc : ∀ n payload, Promises (okLine ++ rest) n payload → 0 < n → mallocs e n = true)
    (hwrites : .err ∉ e.writes) (h : Arriving e.socket.rx okLine rest s)
    (hbehind : Behind e.socket.rx okLine s) :
    (rest.length < sizeLen ∧ (receiveList e s).reports = [.tooLittleData]) ∨
    ∃ n payload, Promises (okLine ++ rest) n payload ∧
      (receiveList e s).reports = if n = 0 then [] else payloadReports n payload := by
  obtain ⟨herrors, hsize⟩ := readSize_cases h hbehind
  unfold receiveList
  dsimp only
  rw [herrors, ClientResult.after_nil]
  rcases hsize with ⟨hlen, hresult⟩ | ⟨n, payload, hn, rfl, hresult, hvalue, h', hbehind'⟩
  · rw [if_pos hresult]
    exact .inl ⟨hlen, rfl⟩
  · have hpromises : Promises (okLine ++ (sizeBytes n ++ payload)) n payload :=
      ⟨hn, (List.append_assoc ..).symm⟩
    rw [if_neg (not_not.mpr hresult), hvalue]
    refine .inr ⟨n, payload, hpromises, ?_⟩
    by_cases hzero : n = 0
    · rw [if_pos hzero, if_pos hzero]
    · obtain ⟨hbuffer, hresult', h'', hbehind''⟩ := h'.readAll n
      rw [if_neg hzero, if_neg (by rw [hmalloc n payload hpromises (by omega)]; decide),
        if_neg hzero, Reading.allErrors_of_result hresult', ClientResult.after_nil, hresult',
        hbuffer, List.length_take]
      unfold payloadReports
      by_cases hlt : payload.length < n
      · rw [if_pos (by omega), if_pos hlt]
      · have hle : n ≤ payload.length := Nat.le_of_not_lt hlt
        have htake : (payload.take n).length = n := List.length_take_of_le hle
        have hresult'' : (writeAll n 0 e.writes).result = n := by
          rcases writeAll_taken (payload.take n) e.writes with hall | ⟨-, herr, -⟩
          · rw [htake] at hall
            exact hall.1
          · exact absurd herr hwrites
        have hlen : (okLine ++ sizeBytes n ++ payload.take n).length
            = okLine.length + sizeLen + n := by
          rw [List.length_append, length_okLine_sizeBytes, htake]
        have hextra := reportExtra_eq h'' (hbehind'' hle hbehind')
          (by rw [hlen]; exact harrives.extra n payload hpromises hle)
        rw [if_neg (by omega), if_neg hlt]
        dsimp only
        rw [hextra, Emission.errors, hresult'', if_neg (by omega), List.nil_append]
        exact if_congr (List.drop_eq_nil_iff.trans ⟨fun h => by omega, fun h => by omega⟩) rfl rfl

/-- A handler says of every status but `OK` what the format says; of `OK` what its own part does. -/
theorem handle_spec {P : ClientResult → Prop} (call : RequestCall) {onOk : Script → ClientResult}
    (h : ResponseArrives bytes e)
    (hok : ∀ rest s, bytes = okLine ++ rest → Arriving e.socket.rx okLine rest s →
      Behind e.socket.rx okLine s → P (onOk s))
    (hother : ¬ okLine <+: bytes → P ⟨(verdictOf bytes).reports bytes, none⟩) :
    ∃ o, handle call e onOk = o.after (writeAll call.count 0 e.request).errors ∧ P o := by
  rcases handle_cases call onOk h.delivers h.blocking with ⟨rfl, heq⟩ |
    ⟨rest, s, rfl, harriving, heq⟩ | ⟨rest, s, hbytes, harriving, hbehind, heq⟩ |
    ⟨hnil, herror, hnotOk, heq⟩
  · exact ⟨_, heq, hother (by decide)⟩
  · have hnotOk : ¬ okLine <+: errorLine ++ rest := by
      rintro ⟨rest', h⟩
      exact not_errorLine_isPrefix_okLine ⟨rest, h.symm⟩
    refine ⟨_, heq, ?_⟩
    have hverdict := hother hnotOk
    rw [reportError_eq harriving]
    cases rest with
    | nil =>
      have hinvalid : verdictOf (errorLine ++ []) = .invalidResponse := by decide
      rwa [hinvalid] at hverdict
    | cons b rest =>
      have herror : verdictOf (errorLine ++ b :: rest) = .serverError :=
        ResponseVerdict.Fits.verdictOf_eq ⟨b, rest, rfl⟩
      rw [herror, ResponseVerdict.reports, List.drop_left] at hverdict
      exact hverdict
  · exact ⟨_, heq, hok rest s hbytes harriving hbehind⟩
  · have hinvalid : verdictOf bytes = .invalidResponse := by
      refine ResponseVerdict.Fits.verdictOf_eq ⟨hnil, fun ⟨b, rest, h⟩ => herror ?_,
        fun ⟨rest, h⟩ => hnotOk ?_⟩
      · exact h ▸ List.prefix_append ..
      · exact h ▸ List.prefix_append ..
    have hverdict := hother hnotOk
    rw [hinvalid] at hverdict
    exact ⟨_, heq, hverdict⟩

/-- What `handle_get` reports and stores. -/
theorem handleGet_spec (remote : Path) (h : ResponseArrives bytes e) (hopen : e.openOk = true)
    (hwrites : .err ∉ e.writes) :
    ∃ o : ClientResult, Receiver.handleGet remote e
        = o.after (writeAll (handleGet remote).count 0 e.request).errors ∧
      o.reports = (verdictOf bytes).reports bytes ∧
      ∀ n payload, Promises bytes n payload → o.output = some (payload.take n) := by
  refine handle_spec (P := fun o => o.reports = (verdictOf bytes).reports bytes ∧
    ∀ n payload, Promises bytes n payload → o.output = some (payload.take n))
    (handleGet remote) h ?_
    fun hnotOk => ⟨rfl, fun n payload hpromises => absurd hpromises.okLine_isPrefix hnotOk⟩
  rintro rest s rfl harriving hbehind
  rcases receiveFile_cases h hopen hwrites harriving hbehind with ⟨hlen, heq⟩ |
    ⟨n, payload, hpromises, heq⟩
  · rw [heq, verdictOf_okLine, if_pos hlen]
    exact ⟨rfl, fun n payload hpromises => absurd hpromises.sizeLen_le (Nat.not_le_of_lt hlen)⟩
  · rw [heq, hpromises.verdictOf, reports_payloadVerdict]
    refine ⟨rfl, fun n' payload' hpromises' => ?_⟩
    obtain ⟨rfl, rfl⟩ := hpromises.unique hpromises'
    rfl

/-- What `handle_list` reports: at a size of 0 nothing, whatever follows. -/
theorem handleList_spec (h : ResponseArrives bytes e)
    (hmalloc : ∀ n payload, Promises bytes n payload → 0 < n → mallocs e n = true)
    (hwrites : .err ∉ e.writes) :
    ∃ o : ClientResult, Receiver.handleList e
        = o.after (writeAll listCall.count 0 e.request).errors ∧
      ((∃ payload, Promises bytes 0 payload ∧ o.reports = []) ∨
        (¬ ∃ payload, Promises bytes 0 payload) ∧ o.reports = (verdictOf bytes).reports bytes) := by
  refine handle_spec (P := fun o => (∃ payload, Promises bytes 0 payload ∧ o.reports = []) ∨
    (¬ ∃ payload, Promises bytes 0 payload) ∧ o.reports = (verdictOf bytes).reports bytes)
    listCall h ?_ fun hnotOk => .inr ⟨fun ⟨_, hpromises⟩ => hnotOk hpromises.okLine_isPrefix, rfl⟩
  rintro rest s rfl harriving hbehind
  rcases receiveList_cases h hmalloc hwrites harriving hbehind with ⟨hlen, heq⟩ |
    ⟨n, payload, hpromises, heq⟩
  · rw [heq, verdictOf_okLine, if_pos hlen]
    exact .inr ⟨fun ⟨_, hpromises⟩ => absurd hpromises.sizeLen_le (Nat.not_le_of_lt hlen), rfl⟩
  · rw [heq, hpromises.verdictOf, reports_payloadVerdict]
    by_cases hzero : n = 0
    · subst hzero
      exact .inl ⟨payload, hpromises, if_pos rfl⟩
    · exact .inr ⟨fun ⟨_, h⟩ => hzero (hpromises.unique h).1, if_neg hzero⟩

theorem verdict_of_reports {o : ClientResult} {v : ResponseVerdict}
    (h : o.reports = v.reports bytes) : o.verdict = o.reports := by
  unfold ClientResult.verdict
  rw [h]
  cases v <;> rfl

/-- **The verdict on a download is exact**: each verdict is reported on exactly the responses that
it fits, and where the size field has arrived the local file holds what there is of the payload. -/
theorem download_verdict_exact (remote : Path) (h : ResponseArrives bytes e)
    (hopen : e.openOk = true) (hwrites : .err ∉ e.writes) :
    (∀ v : ResponseVerdict,
      (Receiver.handleGet remote e).verdict = v.reports bytes ↔ v.Fits bytes) ∧
    (Receiver.handleGet remote e).reports
      = (writeAll (handleGet remote).count 0 e.request).errors ++
        (Receiver.handleGet remote e).verdict ∧
    ∀ n payload, Promises bytes n payload →
      (Receiver.handleGet remote e).output = some (payload.take n) := by
  obtain ⟨o, heq, hreports, hstored⟩ := handleGet_spec remote h hopen hwrites
  have hverdict := verdict_of_reports hreports
  rw [heq, Emission.verdict_after, hverdict, hreports]
  refine ⟨fun v => ?_, by rw [← hreports]; rfl, hstored⟩
  rw [← verdictOf_eq_iff]
  exact (ResponseVerdict.reports_injective bytes).eq_iff

/-- A file of two bytes, with breaks in the status line, the size and the payload. -/
theorem download_verdict_exact_twoBytes :
    (Receiver.handleGet (ascii "f") ⟨[], ⟨[.data 79 [75], .eintr, .data 10 [2, 0, 0, 0],
        .data 0 [0, 0, 0, 104], .eintr, .data 105 [], .eof], [], [], []⟩, true,
        [.took 1, .eintr], true⟩).verdict = [] ∧
    (Receiver.handleGet (ascii "f") ⟨[], ⟨[.data 79 [75], .eintr, .data 10 [2, 0, 0, 0],
        .data 0 [0, 0, 0, 104], .eintr, .data 105 [], .eof], [], [], []⟩, true,
        [.took 1, .eintr], true⟩).output = some [104, 105] := by
  have hpromises : Promises [79, 75, 10, 2, 0, 0, 0, 0, 0, 0, 0, 104, 105] 2 [104, 105] :=
    ⟨by norm_num, by decide⟩
  have harrives : ResponseArrives [79, 75, 10, 2, 0, 0, 0, 0, 0, 0, 0, 104, 105]
      ⟨[], ⟨[.data 79 [75], .eintr, .data 10 [2, 0, 0, 0], .data 0 [0, 0, 0, 104], .eintr,
        .data 105 [], .eof], [], [], []⟩, true, [.took 1, .eintr], true⟩ :=
    { delivers := .data 79 [75] (.eintr (.data 10 [2, 0, 0, 0] (.data 0 [0, 0, 0, 104]
        (.eintr (.data 105 [] (.eof []))))))
      blocking := by decide
      extra := fun n payload h _ => by
        obtain ⟨rfl, rfl⟩ := hpromises.unique h
        decide }
  obtain ⟨hverdict, -, hstored⟩ :=
    download_verdict_exact (ascii "f") harrives rfl (by decide)
  exact ⟨(hverdict .accepted).mpr ⟨2, _, hpromises, rfl⟩, hstored 2 _ hpromises⟩

/-- **LIST and GET agree on a response** exactly if it does not promise an empty list and bring
bytes behind it: these `handle_list` does not look for. -/
theorem list_verdict_iff (remote : Path) (hget : ResponseArrives bytes eGet)
    (hlist : ResponseArrives bytes eList) (hopen : eGet.openOk = true)
    (hgetWrites : .err ∉ eGet.writes) (hlistWrites : .err ∉ eList.writes)
    (hmalloc : ∀ n payload, Promises bytes n payload → 0 < n → mallocs eList n = true) :
    (Receiver.handleList eList).verdict = (Receiver.handleGet remote eGet).verdict ↔
      ¬ ∃ payload, payload ≠ [] ∧ bytes = okLine ++ sizeBytes 0 ++ payload := by
  obtain ⟨o, heq, hreports, -⟩ := handleGet_spec remote hget hopen hgetWrites
  obtain ⟨o', heq', hlistReports⟩ := handleList_spec hlist hmalloc hlistWrites
  have hverdict := verdict_of_reports hreports
  rw [heq, heq', Emission.verdict_after, Emission.verdict_after, hverdict, hreports]
  rcases hlistReports with ⟨payload, hpromises, hreports'⟩ | ⟨hnone, hreports'⟩
  · have haccepted : o'.reports = ResponseVerdict.accepted.reports bytes := hreports'
    have hverdict' := verdict_of_reports haccepted
    rw [hverdict', hreports', hpromises.verdictOf, reports_payloadVerdict]
    constructor
    · rintro hempty ⟨payload', hne, hbytes⟩
      obtain ⟨-, rfl⟩ := hpromises.unique ⟨hpromises.1, hbytes⟩
      rw [payloadReports, if_neg (Nat.not_lt_zero _),
        if_neg fun h => hne (List.length_eq_zero_iff.mp h)] at hempty
      cases hempty
    · intro hnone
      obtain rfl : payload = [] := by
        by_contra hne
        exact hnone ⟨payload, hne, hpromises.2⟩
      rfl
  · rw [verdict_of_reports hreports', hreports']
    exact iff_of_true rfl fun ⟨payload, _, hbytes⟩ => hnone ⟨payload, by norm_num, hbytes⟩

/-- Surroundings in which the bytes arrive together and nothing fails. -/
def atOnce (b : Byte) (bs : List Byte) : Surroundings :=
  ⟨[], ⟨[.data b bs, .eof], [], [], []⟩, true, [], true⟩

/-- A list of one byte, and a file of one byte. -/
theorem list_verdict_iff_oneByte :
    (Receiver.handleList (atOnce 79 [75, 10, 1, 0, 0, 0, 0, 0, 0, 0, 104])).verdict
      = (Receiver.handleGet (ascii "f")
          (atOnce 79 [75, 10, 1, 0, 0, 0, 0, 0, 0, 0, 104])).verdict := by
  have hpromises : Promises [79, 75, 10, 1, 0, 0, 0, 0, 0, 0, 0, 104] 1 [104] :=
    ⟨by norm_num, by decide⟩
  have harrives : ResponseArrives [79, 75, 10, 1, 0, 0, 0, 0, 0, 0, 0, 104]
      (atOnce 79 [75, 10, 1, 0, 0, 0, 0, 0, 0, 0, 104]) :=
    { delivers := .data 79 _ (.eof [])
      blocking := by decide
      extra := fun n payload h _ => by
        obtain ⟨rfl, rfl⟩ := hpromises.unique h
        decide }
  refine (list_verdict_iff (ascii "f") harrives harrives rfl (by decide) (by decide)
    fun n payload h _ => ?_).mpr fun ⟨payload, _, hbytes⟩ => ?_
  · obtain ⟨rfl, rfl⟩ := hpromises.unique h
    decide
  · exact absurd (hpromises.unique ⟨by norm_num, hbytes⟩).1 (by decide)

/-- A byte behind an empty list is not reported; behind an empty file it is. -/
theorem not_list_verdict_extraByte : ¬ ∀ (bytes : List Byte) (remote : Path)
    (eGet eList : Surroundings), ResponseArrives bytes eGet → ResponseArrives bytes eList →
    eGet.openOk = true → .err ∉ eGet.writes → .err ∉ eList.writes →
    (∀ n payload, Promises bytes n payload → 0 < n → mallocs eList n = true) →
    (Receiver.handleList eList).verdict = (Receiver.handleGet remote eGet).verdict := by
  intro h
  have hpromises : Promises [79, 75, 10, 0, 0, 0, 0, 0, 0, 0, 0, 7] 0 [7] :=
    ⟨by norm_num, by decide⟩
  have harrives : ResponseArrives [79, 75, 10, 0, 0, 0, 0, 0, 0, 0, 0, 7]
      (atOnce 79 [75, 10, 0, 0, 0, 0, 0, 0, 0, 0, 7]) :=
    { delivers := .data 79 _ (.eof [])
      blocking := by decide
      extra := fun n payload h _ => by
        obtain ⟨rfl, rfl⟩ := hpromises.unique h
        decide }
  have hverdict := h _ (ascii "f") _ _ harrives harrives rfl (by decide) (by decide)
    fun n payload h hpos => absurd (hpromises.unique h).1 hpos.ne
  revert hverdict
  decide

end Handlers

end FileServer
