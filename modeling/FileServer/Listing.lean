/-
  The list of names and its encoding.

  `Listed` says what the list of file names satisfies in every reachable state: no
  name stands in it twice, and each is the name of an entry, without a newline.  So
  the payload of LIST, the names joined by newlines, can be taken apart again
  (`list_round_trip`).
-/
import FileServer.Equiv.Event
import FileServer.Equiv.Allocation

namespace FileServer

/-! ### The list of names -/

/-- The names in the list.  An element that is `NULL` has none. -/
def listedNames (v : FssVector Path) : List Path := v.contents.filterMap id

/-- What every name in the list satisfies. -/
structure Listable (t : Tree) (w : Path) : Prop where
  newline : newline ∉ w
  entry : ∃ l, t.resolve (t.path w) = .entry l

/-- The invariant of the list. -/
structure Listed (g : Globals) : Prop where
  nodup : (listedNames g.serverFiles).Nodup
  names : ∀ w ∈ listedNames g.serverFiles, Listable g.disk.tree w

/-- The directory itself is no entry, so a listed name is not empty. -/
theorem Listable.ne_nil {t : Tree} {w : Path} (h : Listable t w) : w ≠ [] := by
  rintro rfl
  obtain ⟨l, hl⟩ := h.entry
  obtain ⟨d, hd⟩ := t.resolve_not_entryName (w := []) (by decide) (by decide)
  cases hl.symm.trans hd

theorem mem_listedNames {v : FssVector Path} {w : Path} :
    w ∈ listedNames v ↔ some w ∈ v.contents := by
  simp [listedNames]

section Search

variable {name : Path} {xs : List (Option Path)}

theorem searchName_found_idxOf {i j : Nat} (h : searchName name i xs = .found j) :
    some name ∈ xs ∧ i + xs.idxOf (some name) = j := by
  induction xs generalizing i with
  | nil => cases h
  | cons x xs ih =>
    cases x with
    | none => cases h
    | some w =>
      unfold searchName at h
      split_ifs at h with hw
      · subst hw
        exact ⟨List.mem_cons_self .., by simpa using Search.found.inj h⟩
      · obtain ⟨hmem, hj⟩ := ih h
        refine ⟨List.mem_cons_of_mem _ hmem, ?_⟩
        rw [List.idxOf_cons_ne _ (fun heq => hw (Option.some.inj heq))]
        omega

theorem searchName_absent_not_mem {i : Nat} (h : searchName name i xs = .absent) :
    some name ∉ xs := by
  induction xs generalizing i with
  | nil => exact List.not_mem_nil
  | cons x xs ih =>
    cases x with
    | none => cases h
    | some w =>
      unfold searchName at h
      split_ifs at h with hw
      rw [List.mem_cons, not_or]
      exact ⟨fun heq => hw (Option.some.inj heq).symm, ih h⟩

end Search

section Lists

variable (c : Ctx) (name : Path)

/-- A name that is removed is erased from its first place. -/
theorem contents_removeFileFromList_found {i : Nat}
    (hf : searchName name 0 c.serverFiles.contents = .found i) :
    (removeFileFromList c name).serverFiles.contents
      = c.serverFiles.contents.erase (some name) := by
  obtain ⟨-, hidx⟩ := searchName_found_idxOf hf
  rw [Nat.zero_add] at hidx
  unfold removeFileFromList Ctx.use
  dsimp only
  rw [hf]
  exact (contents_vectorErase _ _).trans (List.erase_eq_eraseIdx_of_idxOf hidx).symm

theorem contents_removeFileFromList :
    (removeFileFromList c name).serverFiles.contents = c.serverFiles.contents ∨
      (removeFileFromList c name).serverFiles.contents
        = c.serverFiles.contents.erase (some name) := by
  unfold removeFileFromList Ctx.use
  dsimp only
  split
  · next i hi =>
    have h := contents_removeFileFromList_found c name hi
    unfold removeFileFromList Ctx.use at h
    dsimp only at h
    rw [hi] at h
    exact .inr h
  · exact .inl rfl
  · exact .inl rfl

/-- A name that is added was not there; where its copy cannot be allocated, `NULL` is added. -/
theorem contents_addFileToList :
    (addFileToList c name).serverFiles.contents = c.serverFiles.contents ∨
      (addFileToList c name).serverFiles.contents = c.serverFiles.contents ++ [none] ∨
      some name ∉ c.serverFiles.contents ∧
        (addFileToList c name).serverFiles.contents = c.serverFiles.contents ++ [some name] := by
  unfold addFileToList Ctx.use
  dsimp only
  split
  · exact .inl rfl
  · exact .inl rfl
  · next habsent =>
    have hno := searchName_absent_not_mem habsent
    have hpush : ∀ (v : FssVector Path) x grow, (vectorPushBack v x grow).contents = v.contents ∨
        (vectorPushBack v x grow).contents = v.contents ++ [x] := by
      intro v x grow
      rw [contents_vectorPushBack]
      split_ifs
      · exact .inl rfl
      · exact .inr rfl
    dsimp only
    rcases hpush c.serverFiles (if c.script.alloc.1 = true then some name else none) _
      with heq | heq
    · exact .inl heq
    · right
      by_cases hdup : c.script.alloc.1 = true
      · exact .inr ⟨hno, heq.trans (by rw [if_pos hdup])⟩
      · exact .inl (heq.trans (by rw [if_neg hdup]))

end Lists

/-! ### The invariant -/

section Steps

variable {c c' : Ctx} {st : Status} {msg : List Byte}

theorem Listed.congr {g g' : Globals} (h : Listed g) (hfiles : g'.serverFiles = g.serverFiles)
    (htree : g'.disk.tree = g.disk.tree) : Listed g' := by
  constructor
  · rw [hfiles]
    exact h.nodup
  · rw [hfiles, htree]
    exact h.names

/-- Names may leave the list. -/
theorem Listed.sublist {g g' : Globals} (h : Listed g)
    (hfiles : List.Sublist (listedNames g'.serverFiles) (listedNames g.serverFiles))
    (htree : g'.disk.tree = g.disk.tree) : Listed g' where
  nodup := h.nodup.sublist hfiles
  names := fun w hw => htree ▸ h.names w (hfiles.subset hw)

/-- A name that is not there may join it. -/
theorem Listed.concat {g g' : Globals} (h : Listed g) {name : Path}
    (hno : name ∉ listedNames g.serverFiles) (hname : Listable g.disk.tree name)
    (hfiles : listedNames g'.serverFiles = listedNames g.serverFiles ++ [name])
    (htree : g'.disk.tree = g.disk.tree) : Listed g' where
  nodup := by
    rw [hfiles, List.nodup_append]
    refine ⟨h.nodup, List.nodup_singleton _, fun a ha b hb heq => ?_⟩
    exact hno (List.mem_singleton.mp hb ▸ heq ▸ ha)
  names := fun w hw => by
    rw [hfiles, List.mem_append, List.mem_singleton] at hw
    rw [htree]
    rcases hw with hw | rfl
    · exact h.names w hw
    · exact hname

/-- The name of an upload that is received is the name of an entry. -/
theorem upload_listable (hok : ConnOk c) (hh : HandleOk c) (hc : c.freed = false)
    (hs : c.client.state = .recvPutData) : Listable c.disk.tree c.client.filename where
  newline := by
    rw [hok.request.name]
    exact nameOf_no_newline _
  entry := by
    obtain ⟨l, gen, hfile⟩ := hh hc hs
    exact ⟨l, hok.request.filepath_eq ▸ hfile.target⟩

theorem Choose.listed (h : Choose c c' st msg) (hok : ConnOk c) (hh : HandleOk c)
    (hc : c.freed = false) (hg : Listed c.toGlobals) : Listed c'.toGlobals := by
  have htree : c'.disk.tree = c.disk.tree := (Step.choose h).tree
  cases h with
  | @deleted w i hl hf hu =>
    refine hg.sublist ?_ htree
    have hcontents := contents_removeFileFromList
      ((takeLine c (.delete w)).sysUnlink (takeLine c (.delete w)).filepath).2 (w.take 255)
    rcases hcontents with heq | heq
    · rw [listedNames, heq]
      exact List.Sublist.refl _
    · rw [listedNames, heq]
      exact List.erase_sublist.filterMap id
  | accepted hs =>
    have hcontents := contents_addFileToList
      ((readExtra c).2.note (.accept c.client.filename)) c.client.filename
    rcases hcontents with heq | heq | ⟨hno, heq⟩
    · have hsame : listedNames (acceptUpload c).serverFiles = listedNames c.serverFiles :=
        congrArg (List.filterMap id) heq
      exact hg.sublist (hsame ▸ List.Sublist.refl _) htree
    · have hsame : listedNames (acceptUpload c).serverFiles = listedNames c.serverFiles :=
        (congrArg (List.filterMap id) heq).trans
          ((List.filterMap_append ..).trans (List.append_nil _))
      exact hg.sublist (hsame ▸ List.Sublist.refl _) htree
    · exact hg.concat (fun hmem => hno (mem_listedNames.mp hmem))
        (upload_listable hok hh hc hs)
        ((congrArg (List.filterMap id) heq).trans (List.filterMap_append ..)) htree
  | listNoMemory =>
    exact hg.congr (buildListBuffer_serverFiles _) htree
  | _ => exact hg.congr rfl htree

theorem listed_shared : Shared (fun c => ConnOk c ∧ HandleOk c) Listed where
  step := fun c c' hc ⟨hok, hh⟩ hg hstep => by
    rcases hstep.serverFiles with heq | ⟨d, st, msg, hch, rfl⟩
    · exact hg.congr heq hstep.tree
    · exact hch.listed hok hh hc hg
  close := fun c _ _ hg => hg.congr (closeAndCleanup_serverFiles c) (closeAndCleanup_grows c).tree
  map := fun _ _ _ hg => ⟨hg.nodup, hg.names⟩

theorem connOk_handleOk_stable : Stable fun c => ConnOk c ∧ HandleOk c where
  new := fun fd script g => ⟨connOk_stable.new fd script g, handleOk_stable.new fd script g⟩
  step := fun c c' hc ⟨hok, hh⟩ hstep =>
    ⟨connOk_stable.step c c' hc hok hstep, handleOk_stable.step c c' hc hh hstep⟩
  close := fun c hc ⟨hok, hh⟩ => ⟨connOk_stable.close c hc hok, handleOk_stable.close c hc hh⟩
  globals := fun c g hg hf ⟨hok, hh⟩ =>
    ⟨connOk_stable.globals c g hg hf hok, handleOk_stable.globals c g hg hf hh⟩

/-- The list satisfies its invariant in every reachable state. -/
theorem Reachable.listed {s : Server} (h : Reachable s) : Listed s.toGlobals :=
  listed_shared.reachable connOk_handleOk_stable
    (fun _ _ => ⟨List.nodup_nil, fun w hw => by cases hw⟩) h

end Steps

/-! ### The payload of LIST -/

/-- The names in a payload: it is cut at its newlines, and an empty one holds none. -/
def splitNames (payload : List Byte) : List Path :=
  if payload = [] then [] else payload.splitOn newline

/-- What `build_list_buffer` does for these names. -/
structure Encoded (ws : List Path) (buffer : List Byte) : Prop where
  size : buffer.length = sizeLen + listDataSize ws.length 0 ws
  /-- The copy ends at the end of the buffer, and nothing is left of what the buffer held. -/
  written : ∀ old : List Byte, old.length = buffer.length →
    fillListData ws.length 0 ws sizeLen
      (copyAt old 0 (sizeBytes (listDataSize ws.length 0 ws))) = (buffer.length, buffer)
  header : buffer.take sizeLen = sizeBytes (buffer.drop sizeLen).length
  names : splitNames (buffer.drop sizeLen) = ws

theorem splitNames_joinNames {ws : List Path} (h : ∀ w ∈ ws, w ≠ [] ∧ newline ∉ w) :
    splitNames (joinNames ws) = ws := by
  unfold splitNames
  split_ifs with hnil
  · -- names are not empty, so only no names join to nothing
    cases ws with
    | nil => rfl
    | cons w ws =>
      exfalso
      refine (h w (List.mem_cons_self ..)).1 ?_
      by_cases hws : ws = []
      · rwa [hws, joinNames_singleton] at hnil
      · rw [joinNames_cons w hws] at hnil
        exact (List.append_eq_nil_iff.mp hnil).1
  · have hws : ws ≠ [] := by
      rintro rfl
      exact hnil rfl
    exact List.splitOn_intercalate newline (fun w hw => (h w hw).2) hws

theorem listBuffer_encoded {ws : List Path} (h : ∀ w ∈ ws, w ≠ [] ∧ newline ∉ w) :
    Encoded ws (listBuffer ws) := by
  have hsize := listDataSize_eq ws.length 0 (Nat.zero_add ws.length)
  have hdrop : (listBuffer ws).drop sizeLen = joinNames ws := by
    rw [listBuffer_eq]
    exact List.drop_left' (length_sizeBytes _)
  have hlen : (listBuffer ws).length = sizeLen + listDataSize ws.length 0 ws := by
    rw [listBuffer_eq, List.length_append, length_sizeBytes, hsize, sizeLen]
  refine ⟨hlen, fun old hold => ?_, ?_, hdrop ▸ splitNames_joinNames h⟩
  · rw [fillListData_full (hold.trans hlen), hold, listBuffer_eq]
  · rw [hdrop, listBuffer_eq]
    exact List.take_left' (length_sizeBytes _)

/-- **LIST round trip.** Where allocations succeed, the list holds distinct names without newlines,
none of them empty, and what `build_list_buffer` makes of them is exactly filled, begins with its
length, and can be taken apart into the names again. -/
theorem list_round_trip {k : Disk} (hk : k.Fresh) {acts : List Action}
    (ha : ∀ a ∈ acts, a.Plenty) : ∃ ws, Names ((Server.boot k).run acts).serverFiles ws ∧
      ws.Nodup ∧ (∀ w ∈ ws, w ≠ [] ∧ newline ∉ w) ∧ Encoded ws (listBuffer ws) ∧
      ∀ conn ∈ ((Server.boot k).run acts).conns,
        (buildListBuffer (((Server.boot k).run acts).ctx conn)).1 = some (listBuffer ws) := by
  have hplenty := (Plenty.boot k).run (.boot k) (fun conn hmem => by cases hmem) ha
  have hlisted : Listed ((Server.boot k).run acts).toGlobals := Reachable.listed ⟨k, acts, hk, rfl⟩
  obtain ⟨ws, hnames⟩ := hplenty.names
  have hws : listedNames ((Server.boot k).run acts).serverFiles = ws := by
    rw [listedNames, hnames, List.filterMap_map]
    exact List.filterMap_some
  have htext : ∀ w ∈ ws, w ≠ [] ∧ newline ∉ w := fun w hw =>
    have h := hlisted.names w (hws.symm ▸ hw)
    ⟨h.ne_nil, h.newline⟩
  refine ⟨ws, hnames, hws ▸ hlisted.nodup, htext, listBuffer_encoded htext, fun conn hmem => ?_⟩
  have hmem' := (hplenty.conns conn hmem).1
  rw [listBuffer_eq]
  exact (buildListBuffer_of_names (c := ((Server.boot k).run acts).ctx conn) hnames hmem').1

/-- Two clients upload empty files `x` and `y`. -/
def twoUploads : List Action :=
  [.accept 5 ⟨pushBack (ascii "PUT x\n" ++ sizeBytes 0) [], [.room 3], [], []⟩,
    .accept 6 ⟨pushBack (ascii "PUT y\n" ++ sizeBytes 0) [], [.room 3], [], []⟩,
    .event 5 .onRead, .event 6 .onRead, .event 6 .onRead, .event 5 .onRead]

theorem list_round_trip_twoUploads : ∃ ws, ws.length = 2 ∧
    Names ((Server.boot bareDisk).run twoUploads).serverFiles ws ∧
    splitNames ((listBuffer ws).drop sizeLen) = ws := by
  have hplenty : ∀ a ∈ twoUploads, a.Plenty := by simp [twoUploads, Action.Plenty]
  obtain ⟨ws, hnames, -, -, henc, -⟩ := list_round_trip bareDisk_fresh hplenty
  refine ⟨ws, ?_, hnames, henc.names⟩
  have hlen := congrArg List.length hnames
  rw [List.length_map, length_contents] at hlen
  rw [← hlen]
  decide +kernel

end FileServer
