/-
  What `handle_put` and `handle_delete` send and print.

  `Relayed whole sent reports` is the contract of a row of writes whose results nobody
  looks at: what the socket took is a sublist of the whole, and it is the whole exactly
  if no write error was reported.  `upload_sent_iff` is that for the request of
  `handle_put`; `acknowledgement_exact` is what the two handlers make of a response.
-/
import FileServer.Response
import FileServer.Uploader

namespace FileServer

open Loop

/-! ### Unchecked writes -/

/-- The report of a failed write. -/
def writeError : Report := .perror "write error"

/-- Writes relayed a text: in order, and whole exactly if no error was reported. -/
structure Relayed (whole sent : List Byte) (reports : List Report) : Prop where
  sublist : sent.Sublist whole
  whole_iff : sent = whole ↔ writeError ∉ reports

section Relays

variable {whole whole' sent sent' : List Byte} {reports reports' : List Report}

theorem Relayed.append (h : Relayed whole sent reports) (h' : Relayed whole' sent' reports') :
    Relayed (whole ++ whole') (sent ++ sent') (reports ++ reports') := by
  refine ⟨h.sublist.append h'.sublist, ?_⟩
  have hboth : sent ++ sent' = whole ++ whole' ↔ sent = whole ∧ sent' = whole' := by
    constructor
    · intro heq
      have hlen := congrArg List.length heq
      rw [List.length_append, List.length_append] at hlen
      have hle := h.sublist.length_le
      have hle' := h'.sublist.length_le
      exact ⟨h.sublist.eq_of_length (by omega), h'.sublist.eq_of_length (by omega)⟩
    · rintro ⟨rfl, rfl⟩
      rfl
  rw [hboth, h.whole_iff, h'.whole_iff, List.mem_append, not_or]

/-- Reports of something else do not matter. -/
theorem Relayed.reports_append (h : Relayed whole sent reports) (hno : writeError ∉ reports') :
    Relayed whole sent (reports' ++ reports) := by
  refine ⟨h.sublist, h.whole_iff.trans ?_⟩
  rw [List.mem_append, not_or]
  exact ⟨fun hmem => ⟨hno, hmem⟩, fun hmem => hmem.2⟩

/-- **One call of `write_all_to_socket`.** -/
theorem relayed_writeAll (bytes : List Byte) (items : List SendItem) :
    Relayed bytes ((writeAll bytes.length 0 items).taken bytes)
      (writeAll bytes.length 0 items).errors := by
  rcases writeAll_taken bytes items with ⟨hresult, htaken⟩ | ⟨hresult, -, hpre, hne⟩
  · have herrors : (writeAll bytes.length 0 items).errors = [] := if_neg (by omega)
    rw [htaken, herrors]
    exact ⟨List.Sublist.refl _, iff_of_true rfl List.not_mem_nil⟩
  · have herrors : (writeAll bytes.length 0 items).errors = [writeError] := if_pos hresult
    rw [herrors]
    exact ⟨hpre.sublist, iff_of_false hne fun h => h (List.mem_singleton_self _)⟩

/-- The request line, as far as it was stored. -/
theorem relayed_requestCall {mem : Nat → Byte} (verbStr : List Byte) {remote : Path}
    (hmem : Holds mem (requestCall verbStr remote).stored)
    (hlen : verbStr.length + remote.length + 2 ≤ requestBufferSize - 1) (items : List SendItem) :
    Relayed (requestText verbStr remote)
      (takenFrom mem (writeAll (requestCall verbStr remote).count 0 items).writes)
      (writeAll (requestCall verbStr remote).count 0 items).errors := by
  have htext : (requestText verbStr remote).length ≤ requestBufferSize - 1 := by
    rwa [length_requestText]
  have hcount : (requestCall verbStr remote).count = (requestText verbStr remote).length :=
    toSize_snprintfReturn (Nat.lt_of_le_of_lt htext (by decide))
  have hstored : (requestCall verbStr remote).stored = requestText verbStr remote :=
    List.take_of_length_le htext
  have hbytes : bytesAt mem 0 (requestText verbStr remote).length = requestText verbStr remote :=
    hstored ▸ hmem
  rw [hcount]
  generalize requestText verbStr remote = text at hbytes ⊢
  rcases writeAll_end mem items (Nat.zero_le text.length) with ⟨hresult, htook⟩ |
    ⟨hresult, -, k, hk, htook⟩
  · have herrors : (writeAll text.length 0 items).errors = [] := if_neg (by omega)
    rw [herrors, htook, Nat.sub_zero, hbytes]
    exact ⟨List.Sublist.refl _, iff_of_true rfl List.not_mem_nil⟩
  · have herrors : (writeAll text.length 0 items).errors = [writeError] := if_pos hresult
    have hpre := bytesAt_isPrefix mem (Nat.le_of_lt hk) 0
    rw [Nat.sub_zero, hbytes] at hpre
    rw [herrors, htook]
    refine ⟨hpre.sublist, iff_of_false (fun hall => ?_) fun h => h (List.mem_singleton_self _)⟩
    have hlen' := congrArg List.length hall
    rw [length_bytesAt] at hlen'
    omega

end Relays

/-! ### The file -/

namespace FileStream

/-- What `fread` brings from here on, up to the first call that brings nothing. -/
def textFrom : List Nat → List Byte → List Byte
  | [], content => content
  | n :: cuts, content =>
    if min n content.length = 0 then []
    else content.take (min n fileChunkSize) ++ textFrom cuts (content.drop (min n fileChunkSize))

/-- What the calls of `fread` bring of a file. -/
def text (f : FileStream) : List Byte := textFrom f.cuts f.content

/-- The first call brings the first part, or nothing. -/
theorem text_fread (f : FileStream) :
    ((f.fread fileChunkSize).1 = [] ∧ f.text = []) ∨
    ((f.fread fileChunkSize).1 ≠ [] ∧
      f.text = (f.fread fileChunkSize).1 ++ (f.fread fileChunkSize).2.text ∧
      (f.fread fileChunkSize).2.content.length < f.content.length) := by
  obtain ⟨content, cuts⟩ := f
  have hshrinks : ∀ n, 0 < n → content ≠ [] →
      (content.drop n).length < content.length := by
    intro n hn hne
    have hpos := List.length_pos_of_ne_nil hne
    rw [List.length_drop]
    omega
  have hnil : ∀ n, content.take n = [] ↔ n = 0 ∨ content = [] := fun n => List.take_eq_nil_iff
  cases cuts with
  | nil =>
    by_cases hcontent : content = []
    · left
      exact ⟨(hnil _).mpr (.inr hcontent), hcontent⟩
    · right
      refine ⟨fun h => ?_, (List.take_append_drop _ _).symm, hshrinks _ (by decide) hcontent⟩
      exact ((hnil _).mp h).elim (by decide) hcontent
  | cons n cuts =>
    by_cases hzero : min n content.length = 0
    · left
      refine ⟨(hnil _).mpr ?_, if_pos hzero⟩
      rcases Nat.min_eq_zero_iff.mp hzero with hn | hlen
      · exact .inl (by rw [hn]; exact Nat.zero_min _)
      · exact .inr (List.length_eq_zero_iff.mp hlen)
    · right
      have hn : 0 < min n fileChunkSize := by
        rw [fileChunkSize]
        omega
      have hcontent : content ≠ [] := fun h => hzero (by rw [h]; exact Nat.min_zero _)
      refine ⟨fun h => ?_, if_neg hzero, hshrinks _ hn hcontent⟩
      exact ((hnil _).mp h).elim (Nat.ne_of_gt hn) hcontent

end FileStream

/-! ### The request of `handle_put` -/

/-- What `handle_put` has to send. -/
def putText (remote : Path) (file : LocalFile) : List Byte :=
  requestText (ascii "PUT") remote ++ sizeBytes (getFileSize file) ++ file.stream.text

theorem transferPass_decreases :
    Decreases transferPass fun t => t.stream.content.length := by
  intro t t' h
  unfold transferPass at h
  dsimp only at h
  split_ifs at h with hpos
  obtain rfl := Pass.again.inj h
  rcases t.stream.text_fread with ⟨hnil, -⟩ | ⟨-, -, hlt⟩
  · rw [hnil] at hpos
    exact absurd hpos (Nat.lt_irrefl 0)
  · exact hlt

/-- **The loop of `handle_put`** relays the file behind what was relayed before it. -/
theorem relayed_transfer {whole : List Byte} {t : Transfer}
    (h : Relayed whole t.sent t.reports) :
    Relayed (whole ++ t.stream.text)
      (exec transferPass (fun t => t.stream.content.length) t).state.sent
      (exec transferPass (fun t => t.stream.content.length) t).state.reports := by
  -- what was read and what the stream still brings are the text of the file
  obtain ⟨u, ⟨read, htext, hrelayed⟩, hexec, hfinal⟩ := exec_spec transferPass_decreases
    (I := fun u => ∃ read, t.stream.text = read ++ u.stream.text ∧
      Relayed (whole ++ read) u.sent u.reports)
    (fun u u' ⟨read, htext, hrelayed⟩ hpass => by
      unfold transferPass at hpass
      dsimp only at hpass
      split_ifs at hpass with hpos
      obtain rfl := Pass.again.inj hpass
      rcases u.stream.text_fread with ⟨hnil, -⟩ | ⟨-, hsplit, -⟩
      · rw [hnil] at hpos
        exact absurd hpos (Nat.lt_irrefl 0)
      · refine ⟨read ++ (u.stream.fread fileChunkSize).1, ?_, ?_⟩
        · rw [htext, hsplit, List.append_assoc]
        · rw [← List.append_assoc]
          exact hrelayed.append (relayed_writeAll _ _))
    (s := t) ⟨[], rfl, by rwa [List.append_nil]⟩
  rw [hexec]
  unfold transferPass at hfinal ⊢
  dsimp only at hfinal ⊢
  split_ifs at hfinal ⊢ with hpos
  · exact hfinal.elim
  · rcases u.stream.text_fread with ⟨-, hnil⟩ | ⟨hne, -⟩
    · rw [htext, hnil, List.append_nil]
      exact hrelayed
    · exact absurd (List.length_pos_of_ne_nil hne) hpos

section Handlers

variable {mem : Nat → Byte} {remote : Path} {file : LocalFile} {e : Surroundings}
  {bytes : List Byte}

theorem relayed_put (hmem : Holds mem (handlePut remote).stored) (hlen : remote.length ≤ 1018)
    (file : LocalFile) (items : List SendItem) :
    Relayed (putText remote file) (transfer mem remote file items).sent
      (transfer mem remote file items).reports := by
  have hline := relayed_requestCall (ascii "PUT") hmem
    (by rw [requestBufferSize, show (ascii "PUT").length = 3 by decide]; omega) items
  have hfield := relayed_writeAll (sizeBytes (getFileSize file))
    (writeAll (handlePut remote).count 0 items).left
  rw [length_sizeBytes] at hfield
  have hno : writeError ∉ file.sizeErrors := by
    unfold LocalFile.sizeErrors writeError
    split_ifs <;> simp
  have hhead := (hline.reports_append hno).append hfield
  exact relayed_transfer (t := ⟨file.stream, _, _, _⟩) hhead

theorem relayed_delete (hmem : Holds mem (handleDelete remote).stored)
    (hlen : remote.length ≤ 1015) (items : List SendItem) :
    Relayed (requestText (ascii "DELETE") remote)
      (takenFrom mem (writeAll (handleDelete remote).count 0 items).writes)
      (writeAll (handleDelete remote).count 0 items).errors :=
  relayed_requestCall (ascii "DELETE") hmem
    (by rw [requestBufferSize, show (ascii "DELETE").length = 6 by decide]; omega) items

/-! ### The response -/

/-- What the format says of a response to PUT or DELETE. -/
def acknowledgement (bytes : List Byte) : Message :=
  if bytes = [] then .report .connectionClosed
  else if okLine <+: bytes then .success
  else if errorLine <+: bytes ∧ bytes ≠ errorLine then
    .report (.errorMessage (messageOf (bytes.drop errorLine.length)))
  else .report .invalidResponse

/-- The messages about the response: `perror` is about the calls. -/
def Exchange.verdict (x : Exchange) : List Message :=
  x.messages.filter fun
    | .report (.perror _) => false
    | _ => true

/-- **The status line of PUT and DELETE**, however the response arrives. -/
theorem reportStatus_eq {s : Script} (hdelivers : Delivers s.rx bytes)
    (hblock : .eagain ∉ s.rx) : reportStatus s = [acknowledgement bytes] := by
  obtain ⟨hbuffer, hresult, rest, hrest, h, -⟩ :=
    (Arriving.start hdelivers hblock).readLine (by decide : 2 ≤ lineBufferSize)
  have hempty := lineOf_eq_nil_iff (k := lineBufferSize - 1) (by decide) bytes
  have hdropLast := newline_notMem_dropLast_lineOf (lineBufferSize - 1) bytes
  have herror := lineOf_eq_iff (k := lineBufferSize - 1) (u := ascii "ERROR") (by decide)
    (by decide) bytes
  have hok := lineOf_eq_iff (k := lineBufferSize - 1) (u := ascii "OK") (by decide)
    (by decide) bytes
  rw [← errorLine_eq] at herror
  rw [← okLine_eq] at hok
  generalize lineOf (lineBufferSize - 1) bytes = line at *
  have hisError : cString (line ++ [0]) = ascii "ERROR\n" ↔ line = errorLine := by
    change cString (line ++ [0]) = errorLine ↔ _
    rw [errorLine_eq]
    exact cString_line_eq_iff hdropLast (by decide)
  have hisOk : cString (line ++ [0]) = ascii "OK\n" ↔ line = okLine := by
    change cString (line ++ [0]) = okLine ↔ _
    rw [okLine_eq]
    exact cString_line_eq_iff hdropLast (by decide)
  unfold reportStatus acknowledgement
  dsimp only
  rw [Reading.lineErrors_of_result hresult, List.map_nil, List.nil_append, hresult]
  by_cases hnil : bytes = []
  · rw [if_pos hnil, hempty.mpr hnil, if_pos (by decide)]
  · have hne : line ≠ [] := fun h => hnil (hempty.mp h)
    have hpos : ¬ (line.length : Int) ≤ 0 := by
      have := List.length_pos_of_ne_nil hne
      omega
    rw [if_neg hpos, if_neg hnil, hbuffer, if_neg hne]
    by_cases hline : line = okLine
    · rw [if_pos (hisOk.mpr hline), if_pos (hok.mp hline)]
    · rw [if_neg (hisOk.not.mpr hline), if_neg (hok.not.mp hline)]
      by_cases herr : line = errorLine
      · rw [if_pos (hisError.mpr herr)]
        rw [herr] at hrest h
        rw [reportError_eq h, hrest, List.drop_left]
        cases rest with
        | nil =>
          rw [if_pos rfl, if_neg fun hboth => hboth.2 (List.append_nil _)]
          rfl
        | cons b rest =>
          rw [if_neg (List.cons_ne_nil b rest), if_pos ⟨List.prefix_append .., by simp⟩]
          rfl
      · rw [if_neg (hisError.not.mpr herr), if_neg fun hboth => herror.not.mp herr hboth.1]

/-- The status `OK` is success, and of every other response PUT and DELETE say what GET does. -/
theorem acknowledgement_cases (bytes : List Byte) :
    (okLine <+: bytes ∧ acknowledgement bytes = .success) ∨
    (¬ okLine <+: bytes ∧ ∃ r, (verdictOf bytes).reports bytes = [r] ∧
      acknowledgement bytes = .report r) := by
  by_cases hok : okLine <+: bytes
  · left
    have hnil : bytes ≠ [] := by
      rintro rfl
      exact absurd hok (by decide)
    exact ⟨hok, by rw [acknowledgement, if_neg hnil, if_pos hok]⟩
  · right
    refine ⟨hok, ?_⟩
    unfold acknowledgement verdictOf
    rw [if_neg hok, if_neg hok]
    split_ifs
    · exact ⟨_, rfl, rfl⟩
    · exact ⟨_, rfl, rfl⟩
    · exact ⟨_, rfl, rfl⟩

theorem filter_perrors {rs : List Report} {x : Message}
    (hrs : ∀ r ∈ rs, ∃ text, r = .perror text) (hx : ∀ text, x ≠ .report (.perror text))
    (sent : List Byte) : Exchange.verdict ⟨sent, rs.map .report ++ [x]⟩ = [x] := by
  induction rs with
  | nil =>
    cases x with
    | success => rfl
    | report r =>
      cases r with
      | perror text => exact absurd rfl (hx text)
      | _ => rfl
  | cons r rs ih =>
    obtain ⟨text, rfl⟩ := hrs _ (List.mem_cons_self ..)
    exact ih fun r hr => hrs r (List.mem_cons_of_mem _ hr)

theorem acknowledgement_ne_perror (bytes : List Byte) (text : String) :
    acknowledgement bytes ≠ .report (.perror text) := by
  unfold acknowledgement
  split_ifs <;> simp

/-- What the two handlers print: reports of failed calls, and one message about the response. -/
theorem handlePut_messages (hopen : file.opens = true) (hdelivers : Delivers e.socket.rx bytes)
    (hblock : .eagain ∉ e.socket.rx) :
    (Uploader.handlePut mem remote file e).messages
      = (transfer mem remote file e.request).reports.map .report ++ [acknowledgement bytes] := by
  unfold Uploader.handlePut
  rw [if_neg (by rw [hopen]; decide), reportStatus_eq hdelivers hblock]

theorem handleDelete_messages (hdelivers : Delivers e.socket.rx bytes)
    (hblock : .eagain ∉ e.socket.rx) :
    (Uploader.handleDelete mem remote e).messages
      = (writeAll (handleDelete remote).count 0 e.request).errors.map .report ++
        [acknowledgement bytes] := by
  unfold Uploader.handleDelete
  dsimp only
  rw [reportStatus_eq hdelivers hblock]

theorem emission_errors_perror (w : Emission) : ∀ r ∈ w.errors, ∃ text, r = .perror text := by
  intro r hr
  unfold Emission.errors at hr
  split_ifs at hr
  · exact ⟨_, List.mem_singleton.mp hr⟩
  · cases hr

/-- The transfer reports only failed calls. -/
theorem transfer_reports_perror (mem : Nat → Byte) (remote : Path) (file : LocalFile)
    (items : List SendItem) :
    ∀ r ∈ (transfer mem remote file items).reports, ∃ text, r = .perror text := by
  obtain ⟨u, hreports, hexec, hfinal⟩ := exec_spec transferPass_decreases
    (I := fun u => ∀ r ∈ u.reports, ∃ text, r = .perror text)
    (fun u u' hu hpass => by
      unfold transferPass at hpass
      dsimp only at hpass
      split_ifs at hpass
      obtain rfl := Pass.again.inj hpass
      exact List.forall_mem_append.mpr ⟨hu, emission_errors_perror _⟩)
    (s :=
      { stream := file.stream
        request := (writeAll sizeLen 0 (writeAll (handlePut remote).count 0 items).left).left
        sent := takenFrom mem (writeAll (handlePut remote).count 0 items).writes ++
          (writeAll sizeLen 0 (writeAll (handlePut remote).count 0 items).left).taken
            (sizeBytes (getFileSize file))
        reports := file.sizeErrors ++ (writeAll (handlePut remote).count 0 items).errors ++
          (writeAll sizeLen 0 (writeAll (handlePut remote).count 0 items).left).errors })
    (by
      refine List.forall_mem_append.mpr ⟨List.forall_mem_append.mpr ⟨?_, ?_⟩, ?_⟩
      · intro r hr
        unfold LocalFile.sizeErrors at hr
        split_ifs at hr
        · exact ⟨_, List.mem_singleton.mp hr⟩
        · cases hr
      · exact emission_errors_perror _
      · exact emission_errors_perror _)
  unfold transfer
  dsimp only
  rw [hexec]
  unfold transferPass at hfinal ⊢
  dsimp only at hfinal ⊢
  split_ifs at hfinal ⊢
  · exact hfinal.elim
  · exact hreports

/-- **An upload is sent whole** exactly if no write error is printed; in any case what the socket
took is in order.  The results of the writes, which `handle_put` does not look at, are not needed.
The name is one that the request line has room for, and the client lives on. -/
theorem upload_sent_iff (hmem : Holds mem (handlePut remote).stored)
    (hlen : remote.length ≤ 1018) (hopen : file.opens = true) :
    (Uploader.handlePut mem remote file e).sent.Sublist (putText remote file) ∧
      ((Uploader.handlePut mem remote file e).sent = putText remote file ↔
        .report writeError ∉ (Uploader.handlePut mem remote file e).messages) := by
  have h := relayed_put hmem hlen file e.request
  have hstatus : .report writeError ∉ reportStatus e.socket := by
    unfold reportStatus
    dsimp only
    intro hmem
    rcases List.mem_append.mp hmem with hmem | hmem
    · unfold Reading.lineErrors writeError at hmem
      split_ifs at hmem <;> simp at hmem
    · unfold reportError Reading.lineErrors writeError at hmem
      dsimp only at hmem
      split_ifs at hmem <;> simp [ClientResult.after] at hmem
  unfold Uploader.handlePut
  rw [if_neg (by rw [hopen]; decide)]
  refine ⟨h.sublist, h.whole_iff.trans (not_congr ?_)⟩
  rw [List.mem_append, List.mem_map]
  constructor
  · exact fun hmem => .inl ⟨_, hmem, rfl⟩
  · rintro (⟨r, hmem, heq⟩ | hmem)
    · obtain rfl := Message.report.inj heq
      exact hmem
    · exact absurd hmem hstatus

/-- A file of three bytes behind a size of two, in writes that are cut and interrupted. -/
theorem upload_sent_threeBytes :
    (Uploader.handlePut (memoryOf (ascii "PUT f\n")) (ascii "f")
        ⟨true, some 2, ⟨[1, 2, 3], [2]⟩⟩
        ⟨[.took 3, .eintr, .took 9, .took 1], ⟨[], [], [], []⟩, true, [], true⟩).sent
      = ascii "PUT f\n" ++ sizeBytes 2 ++ [1, 2, 3] := by
  have h := @upload_sent_iff (memoryOf (ascii "PUT f\n")) (ascii "f")
    ⟨true, some 2, ⟨[1, 2, 3], [2]⟩⟩
    ⟨[.took 3, .eintr, .took 9, .took 1], ⟨[], [], [], []⟩, true, [], true⟩
    (by unfold Holds; decide) (by decide) rfl
  refine (h.2.mpr (by decide +kernel)).trans (by decide)

/-- **The verdict on PUT and DELETE is exact**: success is printed on exactly the responses that
start with `OK`, whatever stands behind, and every other response gets the verdict of GET. -/
theorem acknowledgement_exact (hopen : file.opens = true)
    (hdelivers : Delivers e.socket.rx bytes) (hblock : .eagain ∉ e.socket.rx) :
    (Uploader.handleDelete mem remote e).verdict
        = (Uploader.handlePut mem remote file e).verdict ∧
      ((Uploader.handlePut mem remote file e).verdict = [.success] ↔ okLine <+: bytes) ∧
      ∀ r, (Uploader.handlePut mem remote file e).verdict = [.report r] ↔
        ¬ okLine <+: bytes ∧ (verdictOf bytes).reports bytes = [r] := by
  have hput : (Uploader.handlePut mem remote file e).verdict = [acknowledgement bytes] := by
    unfold Exchange.verdict
    rw [handlePut_messages hopen hdelivers hblock]
    exact filter_perrors (transfer_reports_perror mem remote file e.request)
      (acknowledgement_ne_perror bytes) (Uploader.handlePut mem remote file e).sent
  have hdelete : (Uploader.handleDelete mem remote e).verdict = [acknowledgement bytes] := by
    unfold Exchange.verdict
    rw [handleDelete_messages hdelivers hblock]
    exact filter_perrors (emission_errors_perror _) (acknowledgement_ne_perror bytes)
      (Uploader.handleDelete mem remote e).sent
  refine ⟨hdelete.trans hput.symm, ?_, fun r => ?_⟩
  · rw [hput]
    rcases acknowledgement_cases bytes with ⟨hok, heq⟩ | ⟨hnotOk, r, -, heq⟩
    · exact iff_of_true (by rw [heq]) hok
    · exact iff_of_false (by rw [heq]; simp) hnotOk
  · rw [hput]
    rcases acknowledgement_cases bytes with ⟨hok, heq⟩ | ⟨hnotOk, r', hreports, heq⟩
    · exact iff_of_false (by rw [heq]; simp) fun h => h.1 hok
    · rw [heq, hreports]
      constructor
      · intro h
        obtain rfl := Message.report.inj (List.singleton_inj.mp h)
        exact ⟨hnotOk, rfl⟩
      · rintro ⟨-, h⟩
        obtain rfl := List.singleton_inj.mp h
        rfl

/-- `OK` with more behind it, in two pieces with an interrupted read between them. -/
theorem acknowledgement_exact_okAndMore :
    (Uploader.handlePut (memoryOf []) (ascii "f") ⟨true, none, ⟨[], []⟩⟩
      ⟨[], ⟨[.data 79 [75], .eintr, .data 10 [7], .eof], [], [], []⟩, true, [], true⟩).verdict
      = [.success] :=
  (@acknowledgement_exact (memoryOf []) (ascii "f") ⟨true, none, ⟨[], []⟩⟩
    ⟨[], ⟨[.data 79 [75], .eintr, .data 10 [7], .eof], [], [], []⟩, true, [], true⟩
    [79, 75, 10, 7] rfl (.data 79 [75] (.eintr (.data 10 [7] (.eof [])))) (by decide)).2.1.mpr (by decide)

end Handlers

end FileServer
