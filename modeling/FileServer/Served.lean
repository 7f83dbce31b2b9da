/-
  Which files GET serves, over whole runs.

  A file is in the directory from the open of its upload on, and its name is in the list
  from the acceptance on.  So a path has its file exactly if its name is listed or an
  upload of it is under way (`Tracked`), as long as every file that is linked or unlinked
  comes into the list or leaves it: no upload is rejected behind its open, nobody unlinks
  the file of another one's upload, no listed upload is closed before its reply is sent,
  and the names of accepted uploads can be added.  In such runs GET follows the list
  (`follows_list`).
-/
import FileServer.Exhaustion

namespace FileServer

/-! ### One handler -/

/-- The connection has the entry `l` open for an upload. -/
def Ctx.Uploads (c : Ctx) (l : Loc) : Prop :=
  c.freed = false ∧ c.client.state = .recvPutData ∧ c.disk.tree.resolve c.filepath = .entry l

/-- There is a file at the entry. -/
def Globals.Linked (g : Globals) (l : Loc) : Prop := (g.disk.slot l).link.isSome

/-- What is known of the entry `l`, which the name `v` denotes, in the middle of a handler that
started in `c`; `other` says that another connection has it open for an upload. -/
structure Accounted (v : Path) (l : Loc) (other : Prop) (c x : Ctx) : Prop where
  sound : ConnOk x ∧ HandleOk x
  listed : Listed x.toGlobals
  entry : x.disk.tree.resolve (x.disk.tree.path v) = .entry l
  names : ∀ a, some a ∈ x.serverFiles.contents →
    x.disk.tree.resolve (x.disk.tree.path a) = .entry l → a = v
  linked : some v ∈ x.serverFiles.contents ∨ x.Uploads l → x.Linked l
  found : x.Linked l → some v ∈ x.serverFiles.contents ∨ x.Uploads l ∨
    (c.accepted = false ∧ x.accepted = true ∧ x.client.filename = v) ∨ other

section Steps

variable {c c' x y : Ctx} {v : Path} {l : Loc} {other : Prop} {st : Status} {msg : List Byte}

/-- The entry and the list are as they were. -/
theorem Accounted.frame (h : Accounted v l other c x) (hsound : ConnOk y ∧ HandleOk y)
    (hlisted : Listed y.toGlobals) (htree : y.disk.tree = x.disk.tree)
    (hfiles : y.serverFiles = x.serverFiles) (hslot : y.disk.slot l = x.disk.slot l)
    (hup : y.Uploads l ↔ x.Uploads l) (hacc : x.accepted = true → y.accepted = true)
    (hname : x.accepted = true → y.client.filename = x.client.filename) :
    Accounted v l other c y := by
  have hlink : y.Linked l ↔ x.Linked l := by rw [Globals.Linked, Globals.Linked, hslot]
  refine ⟨hsound, hlisted, ?_, ?_, ?_, ?_⟩
  · rw [htree]
    exact h.entry
  · rw [hfiles, htree]
    exact h.names
  · rw [hfiles, hup, hlink]
    exact h.linked
  · rw [hfiles, hup, hlink]
    intro hl
    rcases h.found hl with hf | hf | ⟨h1, h2, h3⟩ | hf
    · exact .inl hf
    · exact .inr (.inl hf)
    · exact .inr (.inr (.inl ⟨h1, hacc h2, (hname h2).trans h3⟩))
    · exact .inr (.inr (.inr hf))

/-- The own name of a connection that denotes the entry. -/
theorem Accounted.filename (h : Accounted v l other c x) (hv : x.client.filename = v) :
    x.disk.tree.resolve x.filepath = .entry l := by
  rw [h.sound.1.request.filepath_eq, hv]
  exact h.entry

/-- What a reply that is chosen for a rejected upload leaves alone. -/
theorem Choose.serverFiles_of_error (h : Choose c c' .error msg)
    (hs : c.client.state = .recvPutData) : c'.serverFiles = c.serverFiles := by
  have hne : ∀ {t}, c.client.state = t → t ≠ .recvPutData → False := fun h' hne =>
    hne (h'.symm.trans hs)
  cases h with
  | listNoMemory h' => exact (hne h' (by simp)).elim
  | deleteFailed hl => exact (hne hl.state (by simp)).elim
  | _ => rfl

/-- A chunk of a body, or nothing. -/
theorem Accounted.body (h : Accounted v l other c x) (hx : x.freed = false) (hxy : Step x y)
    (hy : y.freed = false) (hsound : ConnOk y ∧ HandleOk y) (hlisted : Listed y.toGlobals)
    (hs : x.client.state = .recvPutData) (hs' : y.client.state = .recvPutData) :
    Accounted v l other c y := by
  have hhead : x.client.state ≠ .recvHeader := by rw [hs]; simp
  have hfiles : y.serverFiles = x.serverFiles := by
    rcases hxy.serverFiles with heq | ⟨d, st, msg, -, rfl⟩
    · exact heq
    · exact absurd hs' (fillResponse_sending d st msg).ne.2.2.1
  have hpath : y.filepath = x.filepath := by
    rw [Ctx.filepath, Ctx.filepath, hxy.tree, (hxy.sameHeader hhead).2.name]
  have hup : y.Uploads l ↔ x.Uploads l := by
    rw [Ctx.Uploads, Ctx.Uploads, hxy.tree, hpath, hs, hs', hx, hy]
  have hno : x.accepted = true → False := fun ha => by
    cases ha.symm.trans (h.sound.1.upload.data hs).2.1
  by_cases ht : x.disk.tree.resolve x.filepath = .entry l
  · have hlink : y.Linked l := hxy.link_isSome hhead hy (h.linked (.inr ⟨hx, hs, ht⟩))
    refine ⟨hsound, hlisted, ?_, ?_, fun _ => hlink, fun _ => .inr (.inl (hup.mpr ⟨hx, hs, ht⟩))⟩
    · rw [hxy.tree]
      exact h.entry
    · rw [hfiles, hxy.tree]
      exact h.names
  · refine h.frame hsound hlisted hxy.tree hfiles ?_ hup (fun ha => (hno ha).elim)
      fun ha => (hno ha).elim
    refine (hxy.slot h.sound.2 hx l).resolve_right fun hwrites => ht ?_
    have ht' := hwrites.2
    rwa [hxy.tree, hpath] at ht'

theorem contents_acceptUpload (x : Ctx) :
    (acceptUpload x).serverFiles.contents = x.serverFiles.contents ∨
      (acceptUpload x).serverFiles.contents = x.serverFiles.contents ++ [none] ∨
      some x.client.filename ∉ x.serverFiles.contents ∧
        (acceptUpload x).serverFiles.contents
          = x.serverFiles.contents ++ [some x.client.filename] :=
  contents_addFileToList ((readExtra x).2.note (.accept x.client.filename)) x.client.filename

/-- An accepted upload adds no other name than its own. -/
theorem mem_files_of_acceptUpload {a : Path}
    (ha : some a ∈ (acceptUpload x).serverFiles.contents) :
    some a ∈ x.serverFiles.contents ∨ a = x.client.filename := by
  rcases contents_acceptUpload x with heq | heq | ⟨-, heq⟩ <;> rw [heq] at ha
  · exact .inl ha
  · exact .inl (by simpa using ha)
  · exact (List.mem_append.mp ha).imp_right fun ha =>
      Option.some.inj (List.mem_singleton.mp ha)

/-- And it removes none. -/
theorem mem_files_acceptUpload {a : Path} (ha : some a ∈ x.serverFiles.contents) :
    some a ∈ (acceptUpload x).serverFiles.contents := by
  rcases contents_acceptUpload x with heq | heq | ⟨-, heq⟩ <;> rw [heq]
  · exact ha
  · exact List.mem_append_left _ ha
  · exact List.mem_append_left _ ha

/-- An upload comes to its end: it is accepted, or its name is listed already. -/
theorem Accounted.ended (h : Accounted v l other c x) (hx : x.freed = false) (hxy : Step x y)
    (hy : y.freed = false) (hsound : ConnOk y ∧ HandleOk y) (hlisted : Listed y.toGlobals)
    (hc : c.accepted = true → x.accepted = true)
    (hs : x.client.state = .recvPutData) (hs' : y.client.state ≠ .recvPutData)
    (hspell : y.opened = true → y.disk.tree.resolve y.filepath = .entry l → y.client.filename = v)
    (hreject : ∀ d msg, Choose x d .error msg → y = fillResponse d .error msg →
      x.disk.tree.resolve x.filepath = .entry l → some v ∈ x.serverFiles.contents) :
    Accounted v l other c y := by
  have hhead : x.client.state ≠ .recvHeader := by rw [hs]; simp
  obtain ⟨ho, hacc, -⟩ := h.sound.1.upload.data hs
  have hname := (hxy.sameHeader hhead).2.name
  have hpath : y.filepath = x.filepath := by
    rw [Ctx.filepath, Ctx.filepath, hxy.tree, hname]
  have hnup : ¬ y.Uploads l := fun hup => hs' hup.2.1
  have hcacc : c.accepted = false := Bool.eq_false_of_not_eq_true fun ha => by
    cases hacc.symm.trans (hc ha)
  have hentry : y.disk.tree.resolve (y.disk.tree.path v) = .entry l := by
    rw [hxy.tree]
    exact h.entry
  -- the name of the upload, where it denotes the entry
  have hspell' : x.disk.tree.resolve x.filepath = .entry l → x.client.filename = v := fun ht =>
    hname.symm.trans (hspell (Conn.opened_mono hxy.log ho) (by rw [hxy.tree, hpath]; exact ht))
  rcases hxy.of_data hs hs' hy with rfl | ⟨d, msg, hch, rfl⟩
  · have hdisk : (fillResponse (acceptUpload x) .ok []).disk = x.disk := addFileToList_disk _ _
    have hlink : (fillResponse (acceptUpload x) .ok []).Linked l ↔ x.Linked l := by
      rw [Globals.Linked, Globals.Linked, hdisk]
    have hfull : x.disk.tree.resolve x.filepath = .entry l → x.Linked l := fun ht =>
      h.linked (.inr ⟨hx, hs, ht⟩)
    refine ⟨hsound, hlisted, hentry, fun a ha hres => ?_, fun hor => ?_, fun hl => ?_⟩
    · rw [hxy.tree] at hres
      rcases mem_files_of_acceptUpload ha with ha | rfl
      · exact h.names a ha hres
      · rw [← h.sound.1.request.filepath_eq] at hres
        exact hspell' hres
    · rw [hlink]
      rcases mem_files_of_acceptUpload (hor.resolve_right hnup) with hv | hv
      · exact h.linked (.inl hv)
      · exact hfull (h.filename hv.symm)
    · rcases h.found (hlink.mp hl) with hf | ⟨-, -, ht⟩ | ⟨-, hf, -⟩ | hf
      · exact .inl (mem_files_acceptUpload hf)
      · exact .inr (.inr (.inl ⟨hcacc, acceptUpload_accepted, hname.trans (hspell' ht)⟩))
      · cases hacc.symm.trans hf
      · exact .inr (.inr (.inr hf))
  · have hfiles : (fillResponse d .error msg).serverFiles = x.serverFiles :=
      hch.serverFiles_of_error hs
    by_cases ht : x.disk.tree.resolve x.filepath = .entry l
    · have hv := hreject d msg hch rfl ht
      have hlink := hxy.link_isSome hhead hy (h.linked (.inl hv))
      refine ⟨hsound, hlisted, hentry, ?_, fun _ => hlink, fun _ => .inl (hfiles ▸ hv)⟩
      rw [hfiles, hxy.tree]
      exact h.names
    · refine h.frame hsound hlisted hxy.tree hfiles ?_ (iff_of_false hnup fun hup => ht hup.2.2)
        (fun ha => (by cases hacc.symm.trans ha)) fun ha => by cases hacc.symm.trans ha
      refine (hxy.slot h.sound.2 hx l).resolve_right fun hwrites => ht ?_
      have ht' := hwrites.2
      rwa [hxy.tree, hpath] at ht'

/-- How an upload gets its file open. -/
theorem Step.data_of_begin (h : Step c c') (hs : c.client.state ≠ .recvPutData)
    (hs' : c'.client.state = .recvPutData) (hc' : c'.freed = false) :
    ∃ f, (openUploadFile c).1 = some f ∧ c' = setState (openUploadFile c).2 .recvPutData := by
  cases h with
  | quiet hq => exact absurd (by cases hq <;> exact hs') hs
  | receive hr =>
    cases hr with
    | header _ h' => cases h'.symm.trans hs'
    | size h' => cases h'.symm.trans hs'
    | body h' => exact absurd h' hs
  | begin hb =>
    cases hb with
    | put => cases hs'
    | upload _ _ ho => exact ⟨_, ho, rfl⟩
  | choose => exact absurd hs' (fillResponse_sending _ _ _).ne.2.2.1
  | send h' => exact absurd hs' h'.sending.ne.2.2.1
  | close => cases hc'
  | fault hl => cases hl.state.symm.trans hs'

/-- An upload opens its file. -/
theorem Accounted.opened (h : Accounted v l other c x) (hx : x.freed = false) (hxy : Step x y)
    (hy : y.freed = false) (hsound : ConnOk y ∧ HandleOk y) (hlisted : Listed y.toGlobals)
    (hs : x.client.state ≠ .recvPutData) (hs' : y.client.state = .recvPutData) :
    Accounted v l other c y := by
  obtain ⟨f, ho, rfl⟩ := hxy.data_of_begin hs hs' hy
  obtain ⟨l', gen, hu, hlink', -⟩ := openUploadFile_uploadFile ho
  by_cases hl : l' = l
  · subst hl
    have hlink : (setState (openUploadFile x).2 .recvPutData).Linked l' := by
      rw [Globals.Linked]
      exact Option.isSome_of_mem hlink'
    refine ⟨hsound, hlisted, ?_, ?_, fun _ => hlink, fun _ => .inr (.inl ⟨hy, hs', hu.target⟩)⟩
    · rw [hxy.tree]
      exact h.entry
    · rw [hxy.tree]
      exact h.names
  · have hno : x.accepted = true → False := fun ha => by
      have hacc := (hsound.1.upload.data hs').2.1
      cases hacc.symm.trans (Conn.accepted_mono hxy.log ha)
    refine h.frame hsound hlisted hxy.tree rfl ?_ (iff_of_false (fun hup => ?_)
      fun hup => hs hup.2.1) (fun ha => (hno ha).elim) fun ha => (hno ha).elim
    · refine (hxy.slot h.sound.2 hx l).resolve_right fun ⟨_, ht⟩ => hl ?_
      exact Target.entry.inj (hu.target.symm.trans ht)
    · exact hl (Target.entry.inj (hu.target.symm.trans hup.2.2))

/-- A step of a connection that has no file of an upload open. -/
theorem Accounted.idle (h : Accounted v l other c x) (hx : x.freed = false) (hxy : Step x y)
    (hy : y.freed = false) (hsound : ConnOk y ∧ HandleOk y) (hlisted : Listed y.toGlobals)
    (hs : x.client.state ≠ .recvPutData) (hs' : y.client.state ≠ .recvPutData) :
    Accounted v l other c y := by
  have hnup : ¬ x.Uploads l := fun hup => hs hup.2.1
  have hnup' : ¬ y.Uploads l := fun hup => hs' hup.2.1
  have hhead : x.accepted = true → x.client.state ≠ .recvHeader := fun ha hs => by
    cases ha.symm.trans (h.sound.1.upload.header hs).2
  rcases hxy.disk_of_not_data hs hs' hy with ⟨hdisk, hfiles⟩ | ⟨hsx, d, hch, rfl, hv⟩
  · exact h.frame hsound hlisted hxy.tree hfiles (by rw [hdisk]) (iff_of_false hnup' hnup)
      (Conn.accepted_mono hxy.log) fun ha => (hxy.sameHeader (hhead ha)).2.name
  · -- a file is deleted, and its name with it
    obtain ⟨hmem, hcontents⟩ := hch.deleted_contents h.sound.1 hv
    obtain ⟨hgone, hread⟩ := hch.deleted_gone h.listed h.sound.1 hsound.1.request hv
    have htree : d.disk.tree = x.disk.tree := hxy.tree
    have hentry : d.disk.tree.resolve (d.disk.tree.path v) = .entry l := by
      rw [htree]
      exact h.entry
    have hsub : ∀ a, some a ∈ d.serverFiles.contents → some a ∈ x.serverFiles.contents := fun a ha =>
      List.mem_of_mem_erase (hcontents ▸ ha)
    have hnames : ∀ a, some a ∈ d.serverFiles.contents →
        d.disk.tree.resolve (d.disk.tree.path a) = .entry l → a = v := fun a ha hres => by
      rw [htree] at hres
      exact h.names a (hsub a ha) hres
    by_cases hdv : d.client.filename = v
    · rw [hdv] at hgone hread
      have hno : ¬ d.Linked l := fun hl => by
        rw [d.disk.read_entry hentry, Disk.lookup_eq_none] at hread
        rw [Globals.Linked, hread] at hl
        cases hl
      exact ⟨hsound, hlisted, hentry, hnames, fun hor => absurd (hor.resolve_right hnup') hgone,
        fun hl => absurd hl hno⟩
    · have hslot : d.disk.slot l = x.disk.slot l := by
        refine (hxy.slot h.sound.2 hx l).resolve_right fun ⟨_, ht⟩ => hdv ?_
        rw [hsound.1.request.filepath_eq] at ht
        exact h.names d.client.filename hmem (by rw [← htree]; exact ht)
      have hlink : d.Linked l ↔ x.Linked l := by rw [Globals.Linked, Globals.Linked, hslot]
      have hin : some v ∈ d.serverFiles.contents ↔ some v ∈ x.serverFiles.contents := by
        rw [hcontents, List.mem_erase_of_ne]
        exact fun heq => hdv (Option.some.inj heq).symm
      refine ⟨hsound, hlisted, hentry, hnames, fun hor => ?_, fun hl => ?_⟩
      · exact hlink.mpr (h.linked (.inl (hin.mp (hor.resolve_right hnup'))))
      · rcases h.found (hlink.mp hl) with hf | hf | ⟨-, hf, -⟩ | hf
        · exact .inl (hin.mpr hf)
        · exact absurd hf hnup
        · exact absurd hsx (hhead hf)
        · exact .inr (.inr (.inr hf))

/-- An `unlink` brings no file back. -/
theorem sysUnlink_link_none {k : Ctx} (h : (k.disk.slot l).link = none) (p : Path) :
    ((k.sysUnlink p).2.disk.slot l).link = none := by
  rcases k.sysUnlink_cases p with ⟨-, hdisk, -⟩ | ⟨-, hdisk⟩ <;> rw [hdisk]
  · exact h
  · by_cases hl : k.disk.tree.resolve p = .entry l
    · exact k.disk.unlink_link hl
    · rw [k.disk.unlink_slot_of_ne hl]
      exact h

/-- What a closing connection must not take away: the file of a listed name; and it must be able to
remove that of an upload that has no reply yet. -/
structure Leaves (v : Path) (k : Ctx) : Prop where
  listed : some v ∈ k.serverFiles.contents → ReplySent k.toConn
  removes : k.opened = true → k.replies = [] → k.script.file.1 ≠ .fail

/-- **Closing a connection.** -/
theorem Accounted.close {k : Ctx} (h : Accounted v l other c x) (hk : AsLeft x k)
    (hsound : ConnOk (closeAndCleanup k) ∧ HandleOk (closeAndCleanup k))
    (hlisted : Listed (closeAndCleanup k).toGlobals)
    (hend : k.client.requestVerb = .put → k.disk.tree.resolve k.filepath = .entry l → Leaves v k)
    (hadded : c.accepted = false → x.accepted = true →
      some x.client.filename ∈ x.serverFiles.contents) :
    Accounted v l other c (closeAndCleanup k) := by
  have hfiles : (closeAndCleanup k).serverFiles = x.serverFiles :=
    (closeAndCleanup_serverFiles k).trans hk.globals.1
  have htree : (closeAndCleanup k).disk.tree = x.disk.tree :=
    (closeAndCleanup_grows k).tree.trans (congrArg Disk.tree hk.globals.2)
  have hnup : ¬ (closeAndCleanup k).Uploads l := fun hup => by cases hup.1
  have hentry : (closeAndCleanup k).disk.tree.resolve
      ((closeAndCleanup k).disk.tree.path v) = .entry l := by
    rw [htree]
    exact h.entry
  have hnames : ∀ a, some a ∈ (closeAndCleanup k).serverFiles.contents →
      (closeAndCleanup k).disk.tree.resolve ((closeAndCleanup k).disk.tree.path a) = .entry l →
        a = v := by
    rw [hfiles, htree]
    exact h.names
  have hdisk := closeAndCleanup_disk k
  -- the file of an upload that is under way is removed
  have hunder : x.Uploads l → ¬ (closeAndCleanup k).Linked l := by
    rintro ⟨-, hs, ht⟩ hl
    obtain ⟨ho, -, hput, -⟩ := h.sound.1.upload.data hs
    have hnil : k.replies = [] := hk.replies.trans (h.sound.1.reply.silent (.inr (.inr hs))).2
    have hkput := hk.verb.trans hput
    have htarget : k.disk.tree.resolve k.filepath = .entry l := by
      rw [Ctx.filepath, hk.client.1, hk.globals.2]
      exact ht
    have hdone : k.client.state ≠ .done := fun hdone => by
      obtain ⟨st, msg, hr, -⟩ := (replySent_iff hk.reply hkput).mpr hdone
      cases hnil.symm.trans hr
    rw [if_pos ⟨hkput, hdone⟩] at hdisk
    have hok := (hend hkput htarget).removes (hk.upload.opened.trans ho) hnil
    have hun : (closeAndCleanup k).disk = (k.disk.unlink k.filepath).2 := by
      rcases k.sysUnlink_cases k.filepath with ⟨-, -, hfail⟩ | ⟨-, hun⟩
      · exact absurd hfail hok
      · exact hdisk.trans hun
    rw [Globals.Linked, hun, k.disk.unlink_link htarget] at hl
    cases hl
  refine ⟨hsound, hlisted, hentry, hnames, fun hor => ?_, fun hl => ?_⟩
  · have hv := hor.resolve_right hnup
    rw [hfiles] at hv
    have hlink := h.linked (.inl hv)
    rcases closeAndCleanup_slot k l with heq | ⟨hput, ht⟩
    · rw [Globals.Linked, heq, hk.globals.2]
      exact hlink
    · -- the connection unlinks nothing, since `v` is listed
      have hsent := (hend hput ht).listed (by rw [hk.globals.1]; exact hv)
      rw [if_neg fun hu => hu.2 ((replySent_iff hk.reply hput).mp hsent), hk.globals.2] at hdisk
      rw [Globals.Linked, hdisk]
      exact hlink
  · have hold : x.Linked l := by
      by_contra hno
      have hnone : (x.disk.slot l).link = none := by
        rwa [Globals.Linked, Option.not_isSome_iff_eq_none] at hno
      have hgone : ((closeAndCleanup k).disk.slot l).link = none := by
        rw [hdisk]
        split_ifs
        · exact sysUnlink_link_none (hk.globals.2 ▸ hnone) _
        · rw [hk.globals.2]
          exact hnone
      rw [Globals.Linked, hgone] at hl
      cases hl
    rw [hfiles]
    rcases h.found hold with hf | hf | ⟨h1, h2, h3⟩ | hf
    · exact .inl hf
    · exact absurd hl (hunder hf)
    · exact .inl (h3 ▸ hadded h1 h2)
    · exact .inr (.inr (.inr hf))

/-- **A handler and the entry.** What is there is listed or under way, and what is listed or under
way is there. -/
theorem Handled.accounted (h : Handled c c') (hc : c.freed = false)
    (hstart : Accounted v l other c c)
    (hspell : c'.opened = true → c'.disk.tree.resolve c'.filepath = .entry l →
      c'.client.filename = v)
    (hend : ∀ k, ClosedAt c k → c' = closeAndCleanup k → k.client.requestVerb = .put →
      k.disk.tree.resolve k.filepath = .entry l → Leaves v k)
    (hreject : ∀ x d msg, Steps c x → x.freed = false → x.client.state = .recvPutData →
      Choose x d .error msg → Steps (fillResponse d .error msg) c' →
        x.disk.tree.resolve x.filepath = .entry l → some v ∈ x.serverFiles.contents)
    (hadded : c.accepted = false → c'.accepted = true →
      some c'.client.filename ∈ c'.serverFiles.contents) : Accounted v l other c c' := by
  -- the state before a closing step
  have hclosing : ∀ {x k : Ctx}, Accounted v l other c x → AsLeft x k → c' = closeAndCleanup k →
      (c.accepted = false → x.accepted = true →
        some x.client.filename ∈ x.serverFiles.contents) := by
    intro x k hx hk heq hca hxa
    have := hadded hca (by
      rw [heq, closeAndCleanup_accepted, hk.upload.accepted]
      exact hxa)
    rwa [heq, closeAndCleanup_client, closeAndCleanup_serverFiles, hk.globals.1,
      show ({ k.client with fileFd := none, listBuf := none } : Client).filename
        = x.client.filename from hk.client.1] at this
  cases h with
  | steps hsteps =>
    refine Chain.between (P := Accounted v l other c) (fun x y hcx ⟨hx, hxy⟩ hyc hacc => ?_)
      hsteps hstart
    have hsound := connOk_handleOk_stable.step x y hx hacc.sound hxy
    have hlisted := listed_shared.step x y hx hacc.sound hacc.listed hxy
    by_cases hy : y.freed = true
    · -- a destroyed connection takes no further step
      obtain rfl : c' = y := by
        rcases Relation.ReflTransGen.cases_head hyc with heq | ⟨z, ⟨hlive, -⟩, -⟩
        · exact heq.symm
        · cases hy.symm.trans hlive
      obtain ⟨k, hk, heq⟩ := hxy.close_of_freed hx hy
      have hleft := hk.asLeft hx hacc.sound.1.reply
      subst heq
      exact hacc.close hleft hsound hlisted (hend k (.handler hcx hx hk) rfl)
        (hclosing hacc hleft rfl)
    · have hy := Bool.eq_false_of_not_eq_true hy
      have hprog := Steps.progress hyc
      by_cases hs : x.client.state = .recvPutData
      · by_cases hs' : y.client.state = .recvPutData
        · exact hacc.body hx hxy hy hsound hlisted hs hs'
        · refine hacc.ended hx hxy hy hsound hlisted (Conn.accepted_mono (Steps.progress hcx).log)
            hs hs' (fun ho ht => ?_) fun d msg hch heq => ?_
          · have hset : y.toConn.Settled := .inr fun hsy => by
              cases ho.symm.trans (hsound.1.upload.header hsy).1
            have hname := (hprog.settled hset).2.name
            refine hname.symm.trans (hspell (Conn.opened_mono hprog.log ho) ?_)
            rw [Ctx.filepath, hname, (Steps.grows hyc).tree]
            exact ht
          · subst heq
            exact hreject x d msg hcx hx hs hch hyc
      · by_cases hs' : y.client.state = .recvPutData
        · exact hacc.opened hx hxy hy hsound hlisted hs hs'
        · exact hacc.idle hx hxy hy hsound hlisted hs hs'
  | closed =>
    have hsound := connOk_handleOk_stable.close c hc hstart.sound
    have hleft : AsLeft c c :=
      ⟨⟨rfl, rfl, rfl⟩, ⟨rfl, rfl⟩, .refl _, rfl, rfl, hstart.sound.1.reply⟩
    exact hstart.close hleft hsound (listed_shared.close c hc hstart.sound hstart.listed)
      (hend c .error rfl) (hclosing hstart hleft rfl)

end Steps

/-! ### Runs -/

/-- A step keeps the file at the entry `l` and the name `v`, which denotes it, together. -/
structure Tracks (v : Path) (l : Loc) (s s' : Server) : Prop where
  /-- Whoever opens the entry for an upload names it `v`. -/
  spelled : ∀ u ∈ s'.conns, u.opened = true → s'.target u = .entry l → u.client.filename = v
  /-- While an upload has the entry open, no other connection unlinks it. -/
  undisturbed : ∀ (j : ConnId) (u : Conn), s.conns[j]? = some u → s'.conns[j]? = some u →
    u.client.requestVerb = .put → u.client.fileFd.isSome → s.target u = .entry l →
      s.Linked l → s'.Linked l
  ends : ∀ k, Closes s s' k → k.client.requestVerb = .put →
    k.disk.tree.resolve k.filepath = .entry l → Leaves v k
  /-- No upload is rejected behind its open, where `v` is not listed. -/
  keeps : ∀ x, Rejects s s' x → x.disk.tree.resolve x.filepath = .entry l →
    some v ∈ x.serverFiles.contents
  allocates : Allocates s s'

/-- The file at the entry `l` is there where the name `v` is listed or an upload has it open. -/
structure Tracked (v : Path) (l : Loc) (s : Server) : Prop where
  strings : none ∉ s.serverFiles.contents
  names : ∀ a, some a ∈ s.serverFiles.contents →
    s.disk.tree.resolve (s.disk.tree.path a) = .entry l → a = v
  linked_iff : s.Linked l ↔
    some v ∈ s.serverFiles.contents ∨ ∃ u ∈ s.conns, (s.ctx u).Uploads l

section Runs

variable {s : Server} {a : Action} {v : Path} {l : Loc}

/-- What a connection has open depends on the tree of directories only. -/
theorem uploads_congr {s' : Server} (htree : s'.disk.tree = s.disk.tree) (u : Conn) :
    (s'.ctx u).Uploads l ↔ (s.ctx u).Uploads l := by
  have hpath : (s'.ctx u).filepath = (s.ctx u).filepath := by
    rw [Ctx.filepath, Ctx.filepath]
    change snprintf 1024 (s'.disk.tree.tempName ++ _ ++ _) = _
    rw [htree]
    rfl
  rw [Ctx.Uploads, Ctx.Uploads, hpath]
  change _ ∧ _ ∧ s'.disk.tree.resolve _ = _ ↔ _
  rw [htree]
  rfl

/-- What a connection knows of the entry before its step; the rest is up to the others. -/
theorem Tracked.accounted (h : Tracked v l s) (hs : Reachable s)
    (hentry : s.disk.tree.resolve (s.disk.tree.path v) = .entry l) {j : ConnId} {conn : Conn}
    (hj : s.conns[j]? = some conn) :
    Accounted v l (∃ k u, k ≠ j ∧ s.conns[k]? = some u ∧ (s.ctx u).Uploads l)
      (s.ctx conn) (s.ctx conn) := by
  have hmem := List.mem_of_getElem? hj
  refine ⟨connOk_handleOk_stable.reachable hs conn hmem, hs.listed, hentry, h.names,
    fun hor => h.linked_iff.mpr (hor.imp_right fun hu => ⟨conn, hmem, hu⟩), fun hl => ?_⟩
  rcases h.linked_iff.mp hl with hv | ⟨u, hu, hup⟩
  · exact .inl hv
  · obtain ⟨k, hk⟩ := List.getElem?_of_mem hu
    by_cases hkj : k = j
    · subst hkj
      obtain rfl := Option.some.inj (hj.symm.trans hk)
      exact .inr (.inl hup)
    · exact .inr (.inr (.inr ⟨k, u, hkj, hk, hup⟩))

/-- **A handler** is called, or a connection is closed. -/
theorem Tracked.handled {s' : Server} (h : Tracked v l s) (hs : Reachable s)
    (hentry : s.disk.tree.resolve (s.disk.tree.path v) = .entry l) (ht : Tracks v l s s')
    (hsurvives : Survives s s') (htree : s'.disk.tree = s.disk.tree) {j : ConnId} {conn : Conn}
    {c : Ctx} (hj : s.conns[j]? = some conn) (hlive : conn.freed = false)
    (hc : Handled (s.ctx conn) c) (hconns : s'.conns = (s.put j c).conns) (hdisk : s'.disk = c.disk)
    (hfiles : s'.serverFiles = c.serverFiles) : Tracked v l s' := by
  have hself : s'.conns[j]? = some c.toConn := by rw [hconns, Server.put_conns_self c hj]
  have hother : ∀ {k : ConnId}, k ≠ j → s'.conns[k]? = s.conns[k]? := fun hkj => by
    rw [hconns, Server.put_conns_of_ne c hkj]
  have hmem' := List.mem_of_getElem? hself
  have hpath : (s'.ctx c.toConn).filepath = c.filepath := by
    change snprintf 1024 (s'.disk.tree.tempName ++ _ ++ _) = _
    rw [hdisk]
    rfl
  have hlink : s'.Linked l ↔ c.Linked l := by rw [Globals.Linked, Globals.Linked, hdisk]
  have hup : (s'.ctx c.toConn).Uploads l ↔ c.Uploads l := by
    rw [Ctx.Uploads, Ctx.Uploads, hpath]
    change _ ∧ _ ∧ s'.disk.tree.resolve _ = _ ↔ _
    rw [hdisk]
    rfl
  have hadded : conn.accepted = false → c.accepted = true →
      some c.client.filename ∈ c.serverFiles.contents := fun h1 h2 =>
    hfiles ▸ hsurvives.listed conn c.toConn ⟨⟨j, hj, hself⟩, h1, h2⟩
  have hacc := hc.accounted hlive (h.accounted hs hentry hj)
    (fun ho ht' => ht.spelled c.toConn hmem' ho (by rw [Server.target, hpath, hdisk]; exact ht'))
    (fun k hk heq => ht.ends k ⟨j, conn, hj, hlive, hk, heq ▸ hself⟩)
    (fun x d msg hx hlive' hs' hch hrest =>
      ht.keeps x ⟨j, conn, d, c, msg, hj, hlive, hx, hlive', hs', hch, hrest, hself⟩) hadded
  refine ⟨hsurvives.strings, fun a ha hres => ?_, fun hl => ?_, ?_⟩
  · rw [hfiles] at ha
    rw [hdisk] at hres
    exact hacc.names a ha hres
  · rw [hfiles]
    rcases hacc.found (hlink.mp hl) with hv | hu | ⟨h1, h2, h3⟩ | ⟨k, u, hkj, hk, hu⟩
    · exact .inl hv
    · exact .inr ⟨c.toConn, hmem', hup.mpr hu⟩
    · exact .inl (h3 ▸ hadded h1 h2)
    · exact .inr ⟨u, List.mem_of_getElem? ((hother hkj).trans hk), (uploads_congr htree u).mpr hu⟩
  · rintro (hv | ⟨u, hu, hup'⟩)
    · rw [hfiles] at hv
      exact hlink.mpr (hacc.linked (.inl hv))
    · obtain ⟨k, hk⟩ := List.getElem?_of_mem hu
      by_cases hkj : k = j
      · subst hkj
        obtain rfl := Option.some.inj (hself.symm.trans hk)
        exact hlink.mpr (hacc.linked (.inr (hup.mp hup')))
      · -- another connection that has the entry open
        have hk' := (hother hkj).symm.trans hk
        have hu' := List.mem_of_getElem? hk'
        have hsound := connOk_handleOk_stable.reachable hs u hu'
        have hups := (uploads_congr htree u).mp hup'
        obtain ⟨_, _, hfile⟩ := hsound.2 hups.1 hups.2.1
        exact ht.undisturbed k u hk' hk (hsound.1.upload.data hups.2.1).2.2.1
          (Option.isSome_of_mem hfile.fd) hups.2.2 (h.linked_iff.mpr (.inr ⟨u, hu', hups⟩))

/-- **One action.** -/
theorem Tracked.act (hs : Reachable s)
    (hentry : s.disk.tree.resolve (s.disk.tree.path v) = .entry l) (h : Tracked v l s)
    (ht : Tracks v l s (s.act a)) : Tracked v l (s.act a) := by
  have hsound := connOk_handleOk_stable.reachable hs
  have hsurvives := (survives_act_iff hs.mapInv (fun u hu => (hsound u hu).1) h.strings a).mpr
    ht.allocates
  have hturn := Server.act_turn hs.mapInv a
  have htree := (Server.turn_le hturn).disk.tree
  generalize s.act a = s' at hturn htree ht hsurvives
  have hsame : s'.disk = s.disk → s'.serverFiles = s.serverFiles →
      (∀ u, u ∈ s'.conns ∧ (s'.ctx u).Uploads l ↔ u ∈ s.conns ∧ (s.ctx u).Uploads l) →
      Tracked v l s' := fun hdisk hfiles hconns => by
    refine ⟨hsurvives.strings, ?_, ?_⟩
    · rw [hdisk, hfiles]
      exact h.names
    · rw [exists_congr hconns, Globals.Linked, hdisk, hfiles]
      exact h.linked_iff
  cases hturn with
  | idle => exact hsame rfl rfl fun u => Iff.rfl
  | @accept fd script rest grow hfd =>
    refine hsame rfl rfl fun u => ?_
    rw [uploads_congr rfl u]
    constructor
    · rintro ⟨hu, hup⟩
      rcases List.mem_append.mp hu with hu | hu
      · exact ⟨hu, hup⟩
      · obtain rfl := List.mem_singleton.mp hu
        cases hup.2.1
    · exact And.imp_left (List.mem_append_left _)
  | handle hget hj hlive hc =>
    exact h.handled hs hentry ht hsurvives htree hj hlive (.steps hc) rfl rfl rfl
  | error hev hget hj hlive =>
    exact h.handled hs hentry ht hsurvives htree hj hlive .closed rfl rfl rfl
  | noMemory => exact hsame rfl rfl fun u => Iff.rfl
  | useAfterFree hev hget hj hlive hc =>
    exact h.handled hs hentry ht hsurvives htree hj hlive (.steps hc) rfl rfl rfl

/-- **The entry of a name in a run.** Its file is there exactly where the name is listed or an
upload has it open. -/
theorem Tracked.run {k : Disk} (hk : k.Fresh) {acts : List Action}
    (hentry : k.tree.resolve (k.tree.path v) = .entry l) (hnew : ¬ (Server.boot k).Linked l)
    (hsteps : ∀ pre a post, acts = pre ++ a :: post →
      Tracks v l ((Server.boot k).run pre) ((Server.boot k).run (pre ++ [a]))) :
    Tracked v l ((Server.boot k).run acts) := by
  have hboot : Tracked v l (Server.boot k) :=
    ⟨List.not_mem_nil, fun a ha => absurd ha List.not_mem_nil, iff_of_false hnew fun h => by
      rcases h with h | ⟨u, hu, -⟩
      · cases h
      · cases hu⟩
  refine Chain.run_between (I := Tracked v l) (Server.boot k) acts (fun pre a post heq h => ?_)
    hboot
  have htracks := hsteps pre a post heq
  rw [Server.run_concat] at htracks
  have hentry' : ((Server.boot k).run pre).disk.tree.resolve
      (((Server.boot k).run pre).disk.tree.path v) = .entry l := by
    rw [(Server.run_le (.boot k) pre).disk.tree]
    exact hentry
  exact Tracked.act ⟨k, pre, hk, rfl⟩ hentry' h htracks

end Runs

end FileServer
