/-
  The parts of `handle_get` and `handle_list` on a stream that arrives.

  `handle_cases`: the status line decides; `readSize_cases`: the size field is there
  whole or the stream ends in it; `download_short` and `download_enough`: what the
  chunk loop stores.  `reportExtra_eq` is the read behind the payload.
-/
import FileServer.Receiver
import FileServer.Equiv.Socket
import FileServer.Equiv.Reply

namespace FileServer

open Loop

/-- `ERROR\n`. -/
def errorLine : List Byte := ascii "ERROR\n"

theorem errorLine_eq : errorLine = ascii "ERROR" ++ [newline] := by decide

theorem okLine_eq : okLine = ascii "OK" ++ [newline] := by decide

/-! ### Strings -/

/-- A line is a text that ends in a newline exactly if the string in the buffer is. -/
theorem cString_line_eq_iff {line u : List Byte} (hline : newline ∉ line.dropLast)
    (h0 : 0 ∉ u) : cString (line ++ [0]) = u ++ [newline] ↔ line = u ++ [newline] := by
  have hcut : cString (line ++ [0]) <+: line := by
    have hpre : cString (line ++ [0]) <+: line ++ [0] := List.takeWhile_prefix _
    rcases List.prefix_concat_iff.mp hpre with hall | hpre
    · -- the NUL itself is not part of the string
      have hmem : (0 : Byte) ∈ cString (line ++ [0]) := by rw [hall]; simp
      have hpos : decide ((0 : Byte) ≠ 0) = true :=
        List.mem_takeWhile_imp (p := fun b : Byte => decide (b ≠ 0)) hmem
      exact absurd hpos (by decide)
    · exact hpre
  constructor
  · intro h
    rw [h] at hcut
    obtain ⟨rest, rfl⟩ := hcut
    cases rest with
    | nil => exact List.append_nil _
    | cons c rest =>
      refine absurd ?_ hline
      rw [List.dropLast_append_of_ne_nil (List.cons_ne_nil c rest)]
      simp
  · rintro rfl
    have hcstr := cString_concat_newline h0
    rw [cString, List.takeWhile_append_of_pos (List.takeWhile_eq_self_iff.mp hcstr)]
    exact List.append_nil _

/-- The text of the error line: the first bytes up to a newline, a NUL or the size of the buffer. -/
def messageOf (bytes : List Byte) : List Byte :=
  cString (beforeChar newline (bytes.take (lineBufferSize - 1)))

theorem beforeChar_lineOf (k : Nat) (bs : List Byte) :
    beforeChar newline (lineOf k bs) = beforeChar newline (bs.take k) := by
  induction k generalizing bs with
  | zero => rfl
  | succ k ih =>
    cases bs with
    | nil => rfl
    | cons b bs =>
      unfold lineOf
      rw [List.take_succ_cons]
      split_ifs with hb
      · rw [hb]
        rfl
      · have hpos : decide (b ≠ newline) = true := decide_eq_true hb
        simp only [beforeChar, List.takeWhile_cons, hpos, if_true]
        exact congrArg _ (ih bs)

/-- What is printed of an error line. -/
theorem errorText_eq {r : Reading} {line : List Byte} (hbuffer : r.buffer = line ++ [0])
    (hresult : r.result = line.length) (hne : line ≠ []) (hline : newline ∉ line.dropLast) :
    errorText r = cString (beforeChar newline line) := by
  obtain ⟨u, c, rfl⟩ : ∃ u c, line = u ++ [c] :=
    ⟨_, _, (List.dropLast_append_getLast hne).symm⟩
  rw [List.dropLast_concat] at hline
  have hbefore : ∀ b ∈ u, decide (b ≠ newline) = true := fun b hb =>
    decide_eq_true fun h => hline (h ▸ hb)
  have hlast : r.result.toNat - 1 = u.length := by
    rw [hresult, Int.toNat_natCast, List.length_append, List.length_singleton]
    exact Nat.add_sub_cancel ..
  have hnul : ∀ v w : List Byte, cString (v ++ 0 :: w) = cString v := fun v w => by
    induction v with
    | nil => rfl
    | cons b v ih =>
      simp only [cString, List.cons_append, List.takeWhile_cons] at ih ⊢
      split_ifs
      · exact congrArg _ ih
      · rfl
  have hat : r.buffer[u.length]? = some c := by
    rw [hbuffer, List.append_assoc, List.getElem?_append_right (Nat.le_refl _), Nat.sub_self]
    rfl
  unfold errorText
  dsimp only
  rw [hlast, hat]
  split_ifs with hc
  · obtain rfl := Option.some.inj hc
    rw [hbuffer, List.append_assoc, List.set_append_right _ _ (Nat.le_refl _), Nat.sub_self,
      beforeChar, List.takeWhile_append_of_pos hbefore]
    exact (hnul _ _).trans (congrArg cString (List.append_nil u).symm)
  · rw [hbuffer, hnul, beforeChar, List.takeWhile_append_of_pos hbefore]
    have hpos : decide (c ≠ newline) = true := decide_eq_true fun h => hc (congrArg some h)
    simp only [List.takeWhile_cons, hpos, if_true, List.takeWhile_nil]

/-! ### Results -/

/-- What a handler says of the response. -/
def ClientResult.verdict (o : ClientResult) : List Report :=
  o.reports.filter fun
    | .perror _ => false
    | _ => true

@[simp] theorem ClientResult.after_nil (o : ClientResult) : o.after [] = o := rfl

@[simp] theorem ClientResult.output_after (rs : List Report) (o : ClientResult) :
    (o.after rs).output = o.output := rfl

theorem Emission.verdict_after (w : Emission) (o : ClientResult) :
    (o.after w.errors).verdict = o.verdict := by
  unfold Emission.errors
  split_ifs <;> rfl

theorem Reading.allErrors_of_result {r : Reading} {n : Nat} (h : r.result = n) :
    r.allErrors = [] := if_neg (by omega)

theorem Reading.lineErrors_of_result {r : Reading} {n : Nat} (h : r.result = n) :
    r.lineErrors = [] := if_neg (by omega)

/-! ### Status and size -/

section Stream

variable {rx₀ : List RxItem} {bytes received rest : List Byte} {s : Script} {e : Surroundings}

/-- **The status line** decides what a handler does. -/
theorem handle_cases (call : RequestCall) (onOk : Script → ClientResult)
    (hdelivers : Delivers e.socket.rx bytes) (hblock : .eagain ∉ e.socket.rx) :
    (bytes = [] ∧ handle call e onOk =
      .after (writeAll call.count 0 e.request).errors ⟨[.connectionClosed], none⟩) ∨
    (∃ rest s, bytes = errorLine ++ rest ∧ Arriving e.socket.rx errorLine rest s ∧
      handle call e onOk = .after (writeAll call.count 0 e.request).errors (reportError s)) ∨
    (∃ rest s, bytes = okLine ++ rest ∧ Arriving e.socket.rx okLine rest s ∧
      Behind e.socket.rx okLine s ∧
      handle call e onOk = .after (writeAll call.count 0 e.request).errors (onOk s)) ∨
    (bytes ≠ [] ∧ ¬ errorLine <+: bytes ∧ ¬ okLine <+: bytes ∧ handle call e onOk =
      .after (writeAll call.count 0 e.request).errors ⟨[.invalidResponse], none⟩) := by
  obtain ⟨hbuffer, hresult, rest, hrest, h, hbehind⟩ :=
    (Arriving.start hdelivers hblock).readLine (by decide : 2 ≤ lineBufferSize)
  have hempty := lineOf_eq_nil_iff (k := lineBufferSize - 1) (by decide) bytes
  have hdropLast := newline_notMem_dropLast_lineOf (lineBufferSize - 1) bytes
  have herror := lineOf_eq_iff (k := lineBufferSize - 1) (u := ascii "ERROR") (by decide)
    (by decide) bytes
  have hok := lineOf_eq_iff (k := lineBufferSize - 1) (u := ascii "OK") (by decide)
    (by decide) bytes
  rw [← errorLine_eq] at herror
  rw [← okLine_eq] at hok
  generalize lineOf (lineBufferSize - 1) bytes = line at *
  have hisError : cString (line ++ [0]) = ascii "ERROR\n" ↔ line = errorLine := by
    change cString (line ++ [0]) = errorLine ↔ _
    rw [errorLine_eq]
    exact cString_line_eq_iff hdropLast (by decide)
  have hisOk : cString (line ++ [0]) = ascii "OK\n" ↔ line = okLine := by
    change cString (line ++ [0]) = okLine ↔ _
    rw [okLine_eq]
    exact cString_line_eq_iff hdropLast (by decide)
  unfold handle
  dsimp only
  rw [Reading.lineErrors_of_result hresult, ClientResult.after_nil, hresult]
  by_cases hnil : bytes = []
  · left
    rw [hempty.mpr hnil, if_pos (by decide)]
    exact ⟨hnil, rfl⟩
  · right
    have hne : line ≠ [] := fun h => hnil (hempty.mp h)
    have hpos : ¬ (line.length : Int) ≤ 0 := by
      have := List.length_pos_of_ne_nil hne
      omega
    rw [if_neg hpos, hbuffer, if_neg hne]
    by_cases herr : line = errorLine
    · left
      rw [if_pos (hisError.mpr herr)]
      rw [herr] at hrest h
      exact ⟨rest, _, hrest, h, rfl⟩
    · right
      rw [if_neg (hisError.not.mpr herr)]
      by_cases hline : line = okLine
      · left
        rw [if_pos (hisOk.mpr hline)]
        rw [hline] at hrest h hbehind
        exact ⟨rest, _, hrest, h, hbehind (by decide) rfl, rfl⟩
      · right
        rw [if_neg (hisOk.not.mpr hline)]
        exact ⟨hnil, herror.not.mp herr, hok.not.mp hline, rfl⟩

/-- Behind `ERROR` the message is printed, if there is a byte of it. -/
theorem reportError_eq (h : Arriving rx₀ received rest s) :
    reportError s =
      ⟨[if rest = [] then .invalidResponse else .errorMessage (messageOf rest)], none⟩ := by
  obtain ⟨hbuffer, hresult, -⟩ := h.readLine (by decide : 2 ≤ lineBufferSize)
  have hempty := lineOf_eq_nil_iff (k := lineBufferSize - 1) (by decide) rest
  have hdropLast := newline_notMem_dropLast_lineOf (lineBufferSize - 1) rest
  have hbefore := beforeChar_lineOf (lineBufferSize - 1) rest
  generalize lineOf (lineBufferSize - 1) rest = line at *
  unfold reportError
  dsimp only
  rw [Reading.lineErrors_of_result hresult, ClientResult.after_nil]
  by_cases hnil : rest = []
  · rw [if_pos hnil, hresult, hempty.mpr hnil, if_neg (by decide)]
  · have hne : line ≠ [] := fun h => hnil (hempty.mp h)
    have hpos : 0 < (line.length : Int) := by
      have := List.length_pos_of_ne_nil hne
      omega
    rw [if_neg hnil, hresult, if_pos hpos]
    rw [if_neg hne] at hbuffer
    rw [errorText_eq hbuffer hresult hne hdropLast, hbefore, messageOf]

/-- Bytes are too few for a size field or start with one. -/
theorem sizeField_cases (rest : List Byte) : rest.length < sizeLen ∨
    ∃ n payload, n < 2 ^ 64 ∧ rest = sizeBytes n ++ payload := by
  by_cases hlen : rest.length < sizeLen
  · exact .inl hlen
  · right
    have hfield : (rest.take sizeLen).length = 8 :=
      List.length_take_of_le (Nat.le_of_not_lt hlen)
    have hlt := ofLeBytes_lt (rest.take sizeLen)
    rw [hfield] at hlt
    refine ⟨ofLeBytes (rest.take sizeLen), rest.drop sizeLen, hlt.trans_eq (by norm_num), ?_⟩
    rw [sizeBytes_ofLeBytes hfield, List.take_append_drop]

/-- **The size field** is there whole, or the stream ends in it. -/
theorem readSize_cases (h : Arriving rx₀ received rest s) (hbehind : Behind rx₀ received s) :
    (readAllFromSocket s sizeLen).allErrors = [] ∧
      ((rest.length < sizeLen ∧ (readAllFromSocket s sizeLen).result ≠ sizeLen) ∨
      ∃ n payload, n < 2 ^ 64 ∧ rest = sizeBytes n ++ payload ∧
        (readAllFromSocket s sizeLen).result = sizeLen ∧
        ofLeBytes (readAllFromSocket s sizeLen).buffer = n ∧
        Arriving rx₀ (received ++ sizeBytes n) payload (readAllFromSocket s sizeLen).script ∧
        Behind rx₀ (received ++ sizeBytes n) (readAllFromSocket s sizeLen).script) := by
  obtain ⟨hbuffer, hresult, h', hbehind'⟩ := h.readAll sizeLen
  refine ⟨Reading.allErrors_of_result hresult, ?_⟩
  rw [hresult, hbuffer]
  rcases sizeField_cases rest with hlen | ⟨n, payload, hn, rfl⟩
  · left
    rw [List.take_of_length_le hlen.le]
    exact ⟨hlen, by omega⟩
  · right
    have hlen : (sizeBytes n).length = sizeLen := length_sizeBytes n
    have hle : sizeLen ≤ (sizeBytes n ++ payload).length := by
      rw [List.length_append, hlen]
      omega
    rw [List.take_left' hlen] at h' hbehind' ⊢
    rw [List.drop_left' hlen] at h'
    exact ⟨n, payload, hn, rfl, congrArg Int.ofNat hlen, ofLeBytes_sizeBytes hn, h',
      hbehind' hle hbehind⟩

/-- **The read behind the payload** finds a byte exactly if there is one, unless it is
interrupted. -/
theorem reportExtra_eq (h : Arriving rx₀ received rest s) (hbehind : Behind rx₀ received s)
    (hextra : (afterBytes received.length rx₀).head? ≠ some .eintr) :
    reportExtra s = if rest = [] then [] else [.receivedTooMuchData] := by
  obtain ⟨rest', hdelivers, heq⟩ := h.partway.rest
  obtain rfl := List.append_cancel_left heq
  have hblock := h.blocking
  rw [hbehind] at hextra
  unfold reportExtra extraRead Script.read
  generalize s.rx = rx at *
  cases hdelivers with
  | eof => rfl
  | data b bs => rfl
  | eagain => exact absurd (List.mem_cons_self ..) hblock
  | eintr => exact absurd rfl hextra

/-! ### The chunk loop -/

/-- What a pass of the loop of `handle_get` does. -/
theorem downloadPass_cases (fileSize : Nat) (d : Download) :
    (¬ d.totalBytesReceived < fileSize ∧ downloadPass fileSize d = .leave d) ∨
    d.totalBytesReceived < fileSize ∧ ∃ count r, 0 < count ∧
      count ≤ fileSize - d.totalBytesReceived ∧ r = readAllFromSocket d.script count ∧
      ((r.result ≤ 0 ∧ downloadPass fileSize d = .ret { d with
        script := r.script
        reports := d.reports ++ r.allErrors ++ [.tooLittleData] }) ∨
      (0 < r.result ∧ downloadPass fileSize d = .again {
        totalBytesReceived := d.totalBytesReceived + r.result.toNat
        script := r.script
        writes := (writeAll r.result.toNat 0 d.writes).left
        file := d.file ++ (writeAll r.result.toNat 0 d.writes).taken r.buffer
        reports := d.reports ++ r.allErrors ++
          (writeAll r.result.toNat 0 d.writes).errors })) := by
  by_cases hlt : d.totalBytesReceived < fileSize
  · right
    refine ⟨hlt, if fileSize - d.totalBytesReceived < fileBufferSize
      then fileSize - d.totalBytesReceived else fileBufferSize, _, ?_, ?_, rfl, ?_⟩
    · rw [fileBufferSize]
      split_ifs <;> omega
    · split_ifs <;> omega
    · unfold downloadPass
      rw [if_pos hlt]
      dsimp only
      split_ifs with hshort hend hend
      · exact .inl ⟨hend, rfl⟩
      · exact .inr ⟨Int.not_le.mp hend, rfl⟩
      · exact .inl ⟨hend, rfl⟩
      · exact .inr ⟨Int.not_le.mp hend, rfl⟩
  · exact .inl ⟨hlt, if_neg hlt⟩

theorem downloadPass_decreases (fileSize : Nat) :
    Decreases (downloadPass fileSize) fun d => fileSize - d.totalBytesReceived := by
  intro d d' h
  rcases downloadPass_cases fileSize d with ⟨-, heq⟩ | ⟨hlt, count, r, -, -, -, ⟨-, heq⟩ |
    ⟨hpos, heq⟩⟩ <;> rw [heq] at h
  · cases h
  · cases h
  · obtain rfl := Pass.again.inj h
    dsimp only
    omega

/-- The local file holds what was received of the payload. -/
structure Fetching (rx₀ : List RxItem) (received payload : List Byte) (fileSize : Nat)
    (d : Download) : Prop where
  file : d.file = payload.take d.totalBytesReceived
  le : d.totalBytesReceived ≤ fileSize
  available : d.totalBytesReceived ≤ payload.length
  arriving : Arriving rx₀ (received ++ payload.take d.totalBytesReceived)
    (payload.drop d.totalBytesReceived) d.script
  behind : fileSize ≤ payload.length →
    Behind rx₀ (received ++ payload.take d.totalBytesReceived) d.script
  reports : d.reports = []
  writes : .err ∉ d.writes

/-- A pass stores the next chunk, or finds the stream at its end. -/
theorem Fetching.pass {payload : List Byte} {fileSize : Nat} {d : Download}
    (h : Fetching rx₀ received payload fileSize d) :
    (fileSize = d.totalBytesReceived ∧ downloadPass fileSize d = .leave d) ∨
    (d.totalBytesReceived < fileSize ∧ payload.length = d.totalBytesReceived ∧
      ∃ d', downloadPass fileSize d = .ret d' ∧ d'.file = d.file ∧
        d'.reports = [.tooLittleData]) ∨
    ∃ d', downloadPass fileSize d = .again d' ∧ Fetching rx₀ received payload fileSize d' := by
  have hle := h.le
  have havailable := h.available
  rcases downloadPass_cases fileSize d with ⟨hlt, heq⟩ | ⟨hlt, count, r, hpos, hcount, hr, hpass⟩
  · exact .inl ⟨by omega, heq⟩
  · right
    obtain ⟨hbuffer, hresult, h', hbehind⟩ := h.arriving.readAll count
    rw [← hr] at hbuffer hresult h' hbehind
    have hlen : ((payload.drop d.totalBytesReceived).take count).length
        = min count (payload.length - d.totalBytesReceived) := by
      rw [List.length_take, List.length_drop]
    have herrors := Reading.allErrors_of_result hresult
    rw [hlen] at hresult
    rw [herrors, h.reports] at hpass
    rcases hpass with ⟨hend, heq⟩ | ⟨hmore, heq⟩
    · exact .inl ⟨hlt, by omega, _, heq, rfl, rfl⟩
    · refine .inr ⟨_, heq, ?_⟩
      rw [hresult, Int.toNat_natCast]
      generalize hk : min count (payload.length - d.totalBytesReceived) = k at *
      have hwrites : .err ∉ (writeAll k 0 d.writes).left := fun hmem =>
        h.writes (writeAll_left_subset _ _ _ hmem)
      have hstored : (writeAll k 0 d.writes).result = k ∧ (writeAll k 0 d.writes).taken r.buffer
          = (payload.drop d.totalBytesReceived).take count := by
        rw [hbuffer]
        rcases writeAll_taken ((payload.drop d.totalBytesReceived).take count) d.writes with
          hall | ⟨-, herr, -⟩
        · rwa [hlen] at hall
        · exact absurd herr h.writes
      have hnext : payload.take d.totalBytesReceived
          ++ (payload.drop d.totalBytesReceived).take count
          = payload.take (d.totalBytesReceived + k) := by
        rw [List.take_add, ← hk]
        congr 1
        rw [List.take_eq_take_iff, List.length_drop]
        omega
      have hrest : (payload.drop d.totalBytesReceived).drop count
          = payload.drop (d.totalBytesReceived + k) := by
        rw [List.drop_drop, List.drop_eq_drop_iff, ← hk]
        omega
      rw [List.append_assoc, hnext] at h' hbehind
      rw [hrest] at h'
      refine ⟨?_, ?_, ?_, h', fun hfile => hbehind ?_ (h.behind hfile), ?_, hwrites⟩
      · rw [h.file, hstored.2, hnext]
      · dsimp only
        omega
      · dsimp only
        omega
      · rw [List.length_drop]
        omega
      · dsimp only
        rw [Emission.errors, hstored.1, if_neg (by omega)]
        rfl

/-- What a handler says of a payload, where the size field promises `n` bytes. -/
def payloadReports (n : Nat) (payload : List Byte) : List Report :=
  if payload.length < n then [.tooLittleData]
  else if payload.length = n then [] else [.receivedTooMuchData]

/-- **The chunk loop** stores what there is of the payload, and the handler compares. -/
theorem download_eq {payload : List Byte} {n : Nat} {writes : List SendItem}
    (h : Arriving rx₀ received payload s) (hbehind : Behind rx₀ received s)
    (hwrites : .err ∉ writes) (hextra : n ≤ payload.length →
      (afterBytes (received.length + n) rx₀).head? ≠ some .eintr) :
    download n s writes = ⟨payloadReports n payload, some (payload.take n)⟩ := by
  obtain ⟨d, hd, hexec, hfinal⟩ := exec_spec (downloadPass_decreases n)
    (I := Fetching rx₀ received payload n)
    (fun d d' hd hpass => by
      rcases hd.pass with ⟨-, heq⟩ | ⟨-, -, _, heq, -⟩ | ⟨_, heq, hd'⟩ <;> rw [heq] at hpass
      · cases hpass
      · cases hpass
      · obtain rfl := Pass.again.inj hpass
        exact hd')
    (s := ⟨0, s, writes, [], []⟩)
    ⟨rfl, Nat.zero_le _, Nat.zero_le _, by rwa [List.take_zero, List.append_nil, List.drop_zero],
      fun _ => by rwa [List.take_zero, List.append_nil], rfl, hwrites⟩
  unfold download payloadReports
  rw [hexec]
  rcases hd.pass with ⟨hn, heq⟩ | ⟨hlt, hlen, d', heq, hfile, hreports⟩ | ⟨_, heq, -⟩
  · rw [heq]
    have hle : n ≤ payload.length := hn ▸ hd.available
    have harriving := hd.arriving
    have hbehind' := hd.behind hle
    have hlen : (received ++ payload.take d.totalBytesReceived).length = received.length + n := by
      rw [List.length_append, List.length_take_of_le hd.available, hn]
    have hreport := reportExtra_eq harriving hbehind' (by rw [hlen]; exact hextra hle)
    dsimp only [Pass.state]
    rw [hd.reports, hreport, hd.file, ← hn, List.nil_append, if_neg (Nat.not_lt.mpr hle)]
    congr 1
    refine if_congr (List.drop_eq_nil_iff.trans ⟨fun h => ?_, fun h => ?_⟩) rfl rfl <;> omega
  · rw [heq]
    dsimp only
    rw [hreports, hfile, hd.file, ← hlen, if_pos (hlen ▸ hlt), List.take_length,
      List.take_of_length_le (by omega)]
  · rw [heq] at hfinal
    exact hfinal.elim

end Stream

end FileServer
