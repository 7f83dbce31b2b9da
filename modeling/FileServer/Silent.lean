/-
  A download without a message is a correct download.

  The input of the socket and the outcome of every write are arbitrary: reads fail or
  stop early, writes to the local file are partial, interrupted or fail.  Whatever
  goes wrong is printed (`download_silent` follows the chunk loop, in which the count
  comes from the socket and the file from the writes), so that silence means that all
  of the payload went from one to the other.
-/
import FileServer.Equiv.Receiver

namespace FileServer

open Loop

/-! ### The input -/

section Reads

variable {s s' : Script} {bs : List Byte} {n count size : Nat} {r : Reading}

theorem Waits.incoming (h : Waits s s') : incoming s.rx = incoming s'.rx := by
  induction h with
  | refl => rfl
  | @eintr s' n _ hr ih =>
    rw [ih, incoming_read s' n, hr]
    rfl

theorem Took.incoming (h : Took s bs s') : incoming s.rx = bs ++ incoming s'.rx := by
  induction h with
  | refl => rfl
  | @bytes bs cs s' s'' n _ hw _ _ hr ih =>
    rw [ih, hw.incoming, incoming_read s'' n, hr, List.append_assoc]
    rfl

theorem ReadResult.AtEnd.found {r : ReadResult} (h : r.AtEnd) : r.found = [] := by
  rcases h with rfl | rfl <;> rfl

theorem ReadResult.Failed.found {r : ReadResult} (h : r.Failed) : r.found = [] := by
  rcases h with rfl | rfl <;> rfl

/-- What `read_all_from_socket` stores comes off the input, and is what it returns unless it
fails. -/
theorem AllRead.incoming (h : AllRead s count r) :
    incoming s.rx = r.buffer ++ incoming r.script.rx ∧
      (r.result = -1 ∨ r.result = r.buffer.length ∧ r.buffer.length ≤ count) := by
  cases h with
  | full ht hlen hresult =>
    exact ⟨ht.incoming, .inr ⟨hresult.trans (congrArg Int.ofNat hlen.symm), hlen.le⟩⟩
  | @ended s' s'' n ht hw _ hr hscript hlen hresult =>
    refine ⟨?_, .inr ⟨hresult, hlen.le⟩⟩
    rw [ht.incoming, hw.incoming, incoming_read s'' n, hr.found, hscript, List.nil_append]
  | @failed s' s'' n ht hw hr hscript hresult =>
    refine ⟨?_, .inl hresult⟩
    rw [ht.incoming, hw.incoming, incoming_read s'' n, hr.found, hscript, List.nil_append]

/-- The line that `read_line_from_socket` returns comes off the input. -/
theorem LineEnd.incoming (h : LineEnd s size r) (hpos : 0 < r.result) :
    ∃ u, r.buffer = u ++ [0] ∧ newline ∉ u.dropLast ∧
      incoming s.rx = u ++ incoming r.script.rx := by
  cases h with
  | @line u ht hu _ _ hbuffer => exact ⟨u, hbuffer, hu, ht.incoming⟩
  | @ended u s' s'' ht hw hr hscript hu _ hbuffer hresult =>
    have hne : u ≠ [] := by
      rintro rfl
      rw [hresult] at hpos
      exact absurd hpos (by decide)
    refine ⟨u, hbuffer.trans (if_neg hne), fun h => hu (List.dropLast_subset _ h), ?_⟩
    rw [ht.incoming, hw.incoming, incoming_read s'' 1, hr.found, hscript, List.nil_append]
  | failed _ _ _ _ hresult =>
    rw [hresult] at hpos
    exact absurd hpos (by decide)

end Reads

/-! ### The handler -/

section Silent

variable {e : Surroundings} {s : Script} {rs : List Report} {o : ClientResult}

theorem ClientResult.reports_after (rs : List Report) (o : ClientResult) :
    (o.after rs).reports = rs ++ o.reports := rfl

/-- Without a message the status is `OK`. -/
theorem handle_silent {call : RequestCall} {onOk : Script → ClientResult}
    (h : (handle call e onOk).reports = []) :
    ∃ s, incoming e.socket.rx = okLine ++ incoming s.rx ∧ (onOk s).reports = [] ∧
      (handle call e onOk).output = (onOk s).output := by
  have hend := readLine_end e.socket lineBufferSize
  unfold handle at h ⊢
  dsimp only at h ⊢
  rw [ClientResult.reports_after, List.append_eq_nil_iff, ClientResult.reports_after,
    List.append_eq_nil_iff] at h
  obtain ⟨-, -, h⟩ := h
  rw [ClientResult.output_after, ClientResult.output_after]
  split_ifs at h ⊢ with hclosed herror hok
  · unfold reportError at h
    rw [ClientResult.reports_after, List.append_eq_nil_iff] at h
    cases h.2
  · obtain ⟨u, hbuffer, hu, hincoming⟩ := hend.incoming (by omega)
    rw [hbuffer] at hok
    have hline : u = okLine := by
      rw [okLine_eq]
      refine (cString_line_eq_iff hu (by decide)).mp ?_
      rw [← okLine_eq]
      exact hok
    rw [hline] at hincoming
    exact ⟨_, hincoming, h, rfl⟩

/-- As long as nothing is printed, the local file holds what came off the socket. -/
structure Storing (s : Script) (fileSize : Nat) (d : Download) : Prop where
  le : d.totalBytesReceived ≤ fileSize
  stored : ∃ received, incoming s.rx = received ++ incoming d.script.rx ∧
    received.length = d.totalBytesReceived ∧ (d.reports = [] → d.file = received)

/-- A pass stores what it has read, or something is printed. -/
theorem Storing.pass {fileSize : Nat} {d : Download} (h : Storing s fileSize d) :
    (d.totalBytesReceived = fileSize ∧ downloadPass fileSize d = .leave d) ∨
    (∃ d', downloadPass fileSize d = .ret d' ∧ d'.reports ≠ []) ∨
    ∃ d', downloadPass fileSize d = .again d' ∧ Storing s fileSize d' := by
  obtain ⟨hle, received, hincoming, hlen, hfile⟩ := h
  rcases downloadPass_cases fileSize d with ⟨hlt, heq⟩ | ⟨hlt, count, r, -, hcount, hr, hpass⟩
  · exact .inl ⟨by omega, heq⟩
  · right
    obtain ⟨hread, hresult⟩ := (readAll_end d.script count).incoming
    rw [← hr] at hread hresult
    rcases hpass with ⟨-, heq⟩ | ⟨hpos, heq⟩
    · exact .inl ⟨_, heq, by simp⟩
    · obtain ⟨hresult, hbuffer⟩ : r.result = r.buffer.length ∧ r.buffer.length ≤ count := by
        rcases hresult with hresult | hresult
        · omega
        · exact hresult
      rw [hresult, Int.toNat_natCast] at heq
      refine .inr ⟨_, heq, by dsimp only; omega, received ++ r.buffer, ?_, ?_, fun hsilent => ?_⟩
      · rw [hincoming, hread, List.append_assoc]
      · rw [List.length_append, hlen]
      · -- the write has not failed, or it would have been printed
        dsimp only at hsilent ⊢
        rw [List.append_eq_nil_iff, List.append_eq_nil_iff] at hsilent
        rcases writeAll_taken r.buffer d.writes with ⟨-, htaken⟩ | ⟨hfailed, -⟩
        · rw [htaken, hfile hsilent.1.1]
        · rw [Emission.errors, if_pos hfailed] at hsilent
          cases hsilent.2

/-- **The chunk loop**: without a message the local file is the payload. -/
theorem download_silent {n : Nat} {writes : List SendItem}
    (h : (download n s writes).reports = []) :
    ∃ payload rest, incoming s.rx = payload ++ rest ∧ payload.length = n ∧
      (download n s writes).output = some payload := by
  obtain ⟨d, hd, hexec, hfinal⟩ := exec_spec (downloadPass_decreases n) (I := Storing s n)
    (fun d d' hd hpass => by
      rcases hd.pass with ⟨-, heq⟩ | ⟨_, heq, -⟩ | ⟨_, heq, hd'⟩ <;> rw [heq] at hpass
      · cases hpass
      · cases hpass
      · obtain rfl := Pass.again.inj hpass
        exact hd')
    (s := ⟨0, s, writes, [], []⟩) ⟨Nat.zero_le _, [], rfl, rfl, fun _ => rfl⟩
  unfold download at h ⊢
  rw [hexec] at h ⊢
  rcases hd.pass with ⟨hn, heq⟩ | ⟨d', heq, hreports⟩ | ⟨_, heq, -⟩
  · rw [heq] at h ⊢
    obtain ⟨-, received, hincoming, hlen, hfile⟩ := hd
    have hsilent := (List.append_eq_nil_iff.mp h).1
    exact ⟨received, _, hincoming, hlen.trans hn, congrArg some (hfile hsilent)⟩
  · rw [heq] at h
    exact absurd h hreports
  · rw [heq] at hfinal
    exact hfinal.elim

/-- Without a message the size field has arrived and its payload is stored. -/
theorem receiveFile_silent (h : (receiveFile e s).reports = []) :
    ∃ n payload rest, n < 2 ^ 64 ∧ incoming s.rx = sizeBytes n ++ payload ++ rest ∧
      payload.length = n ∧ (receiveFile e s).output = some payload := by
  obtain ⟨hread, hresult⟩ := (readAll_end s sizeLen).incoming
  unfold receiveFile at h ⊢
  dsimp only at h ⊢
  rw [ClientResult.reports_after, List.append_eq_nil_iff] at h
  rw [ClientResult.output_after]
  generalize readAllFromSocket s sizeLen = size at *
  obtain ⟨-, h⟩ := h
  -- where the size is short or the file is not opened, there is a message
  split_ifs at h ⊢ with hsize hopen
  obtain ⟨payload, rest, hincoming, hlen, houtput⟩ := download_silent h
  have hfield : size.buffer.length = 8 := by
    rw [sizeLen] at hsize
    omega
  have hlt := ofLeBytes_lt size.buffer
  rw [hfield] at hlt
  refine ⟨ofLeBytes size.buffer, payload, rest, hlt.trans_eq (by norm_num), ?_, hlen, houtput⟩
  rw [sizeBytes_ofLeBytes hfield, hread, hincoming, List.append_assoc]

end Silent

/-- **A silent download is a correct download.** -/
theorem silent_download_correct (remote : Path) (e : Surroundings)
    (h : (Receiver.handleGet remote e).reports = []) :
    ∃ n payload rest, n < 2 ^ 64 ∧
      incoming e.socket.rx = okLine ++ sizeBytes n ++ payload ++ rest ∧ payload.length = n ∧
      (Receiver.handleGet remote e).output = some payload := by
  obtain ⟨s, hstatus, hsilent, houtput⟩ := handle_silent h
  obtain ⟨n, payload, rest, hn, hincoming, hlen, hstored⟩ := receiveFile_silent hsilent
  refine ⟨n, payload, rest, hn, ?_, hlen, houtput.trans hstored⟩
  rw [hstatus, hincoming, List.append_assoc, List.append_assoc, List.append_assoc]

/-- A file of two bytes, written in two parts and interrupted between them. -/
theorem silent_download_correct_twoBytes :
    ∃ n payload rest, n < 2 ^ 64 ∧
      incoming [.data 79 [75, 10, 2, 0, 0, 0], .eintr, .data 0 [0, 0, 0, 104], .data 105 [], .eof]
        = okLine ++ sizeBytes n ++ payload ++ rest ∧ payload.length = n ∧
      (Receiver.handleGet (ascii "f") ⟨[], ⟨[.data 79 [75, 10, 2, 0, 0, 0], .eintr,
        .data 0 [0, 0, 0, 104], .data 105 [], .eof], [], [], []⟩, true, [.took 1, .eintr],
        true⟩).output = some payload :=
  silent_download_correct (ascii "f") ⟨[], ⟨[.data 79 [75, 10, 2, 0, 0, 0], .eintr,
    .data 0 [0, 0, 0, 104], .data 105 [], .eof], [], [], []⟩, true, [.took 1, .eintr], true⟩
    (by decide)

end FileServer
