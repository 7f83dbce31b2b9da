/-
  Writers of one name.

  An upload takes effect when it is accepted, a DELETE when it unlinks the file.  Two
  uploads that overlap write into one file, and a DELETE or a second upload during an
  upload takes its file away (`not_serializable_overlap`).  Where nobody else touches
  the file of an upload under way, requests that are answered OK leave the name as if
  they had been served one after the other, in the order in which they took effect
  (`serializable`).
-/
import Mathlib.Data.List.Permutation
import FileServer.Advertised
import FileServer.Replies

namespace FileServer

/-- The request has taken effect. -/
def Done (c : Conn) : Prop :=
  c.accepted = true ∨ c.client.requestVerb = .delete ∧ c.replies = [(.ok, [])]

/-- The connection has the file of an upload open that is not accepted. -/
def Busy (c : Conn) : Prop := c.freed = false ∧ c.opened = true ∧ c.accepted = false

instance (u : Conn) : Decidable (Busy u) := inferInstanceAs (Decidable (_ ∧ _ ∧ _))

theorem Busy.not_done {u : Conn} (h : Busy u) (hu : UploadOk u) : ¬ Done u := by
  rintro (hacc | ⟨hv, -⟩)
  · cases h.2.2.symm.trans hacc
  · cases (hu.opened h.2.1).symm.trans hv

section Steps

variable {c c' : Ctx}

/-- The list changes only where a request takes effect. -/
theorem Step.serverFiles_of_not_done (hok : ConnOk c) (h : Step c c') (hdone : ¬ Done c'.toConn) :
    c'.serverFiles = c.serverFiles := by
  rcases h.serverFiles with heq | ⟨d, st, msg, hch, rfl⟩
  · exact heq
  have hchoice := hch
  cases hch with
  | deleted hl hf hu =>
    exfalso
    refine hdone (.inr ⟨?_, ?_⟩)
    · change (removeFileFromList _ _).client.requestVerb = _
      rw [removeFileFromList_client]
      simp [takeLine, noteRequest, Request.verb, Ctx.setClient]
    · have hnil := hchoice.replies_nil hok.reply (by rw [hl.state]; simp)
      rw [Conn.replies_of_log (l := [.reply .ok []]) rfl, hnil]
      rfl
  | accepted hs =>
    refine absurd (.inl ?_) hdone
    have hlog : (acceptUpload c).log = _ := acceptUpload_log c
    refine (Conn.accepted_of_log (l := [.reply .ok []]) rfl).trans ?_
    rw [Conn.accepted_of_log hlog]
    simp [Call.accepts]
  | listNoMemory => exact buildListBuffer_serverFiles _
  | _ => rfl

/-- Where no file is open and nothing takes effect, the disk stays. -/
theorem Step.disk_of_not_done (hc : c.freed = false) (hok : ConnOk c) (h : Step c c')
    (hc' : c'.freed = false) (ho : c'.opened = false) (hdone : ¬ Done c'.toConn) :
    c'.disk = c.disk := by
  have hdata : c.client.state ≠ .recvPutData := fun hs => by
    cases ho.symm.trans (Conn.opened_mono h.log (hok.upload.data hs).1)
  have hdata' : c'.client.state ≠ .recvPutData := fun hs => by
    cases ho.symm.trans ((connOk_stable.step c c' hc hok h).upload.data hs).1
  refine ((h.disk_of_not_data hdata hdata' hc').resolve_right ?_).1
  rintro ⟨hs, d, hch, rfl, hv⟩
  refine hdone (.inr ⟨hv, ?_⟩)
  rw [Conn.replies_of_log (l := [.reply .ok []]) rfl, hch.replies_nil hok.reply (by rw [hs]; simp)]
  rfl

/-- A PUT that is answered OK was accepted. -/
theorem okAccepted_stable : Stable fun c => ConnOk c ∧
    (c.client.requestVerb = .put → c.replies = [(.ok, [])] → c.accepted = true) where
  new := fun fd script g => ⟨connOk_stable.new fd script g, fun _ h => by cases h⟩
  step := fun c c' hc ⟨hok, h⟩ hstep => by
    have hok' := connOk_stable.step c c' hc hok hstep
    refine ⟨hok', fun hv hr => ?_⟩
    rcases hstep.replied hok hv hr with ⟨hv', hr'⟩ | ⟨d, hch, rfl, hv', -⟩
    · exact Conn.accepted_mono hstep.log (h hv' hr')
    · exact hok'.upload.ok rfl hv'
  close := fun c hc ⟨hok, h⟩ => by
    refine ⟨connOk_stable.close c hc hok, fun hv hr => ?_⟩
    rw [closeAndCleanup_client] at hv
    rw [closeAndCleanup_replies] at hr
    rw [closeAndCleanup_accepted]
    exact h hv hr
  globals := fun c g hg hf ⟨hok, h⟩ => ⟨connOk_stable.globals c g hg hf hok, h⟩

/-- What is known of a connection of a run at whose end it is answered OK: its name and its verb,
and how it is closed. -/
structure Answers (w : Path) (c : Conn) : Prop where
  request : c.Settled → c.client.filename = w ∧
    (c.client.requestVerb = .put ∨ c.client.requestVerb = .delete)
  closed : c.freed = true → c.replies = [(.ok, [])] ∧ ReplySent c

/-- Behind its effect a request leaves everything as it is. -/
theorem Step.of_done (hc : c.freed = false) (hok : ConnOk c) (hd : Done c.toConn) (h : Step c c')
    (hend : c'.freed = true → ReplySent c'.toConn) (hr : c'.replies <+: [(.ok, [])]) :
    Done c'.toConn ∧ c'.disk = c.disk ∧ c'.serverFiles = c.serverFiles ∧
      c'.client.requestVerb = c.client.requestVerb ∧
      (c.accepted = true → ∀ body, ReceivedBody c.toConn body → ReceivedBody c'.toConn body) := by
  have hs : c.client.state.Sending := by
    rcases c.client.state.cases with hrecv | hsend | hdone
    · exfalso
      rcases hd with ha | ⟨-, hreplies⟩
      · obtain ⟨-, hst, -⟩ := hok.upload.accepted ha
        rcases hrecv with hs | hs | hs <;> rcases hst with hst | hst <;> cases hs.symm.trans hst
      · cases (hok.reply.silent hrecv).2.symm.trans hreplies
    · exact hsend
    · cases hc.symm.trans (hok.done hdone)
  have hverb := (h.sameHeader hs.ne.1).2.verb
  rcases hd with ha | ⟨hv, hreplies⟩
  · obtain ⟨ha', hdisk, hfiles, hbody⟩ := h.of_accepted hc hok ha
    exact ⟨.inl ha', hdisk hend, hfiles, hverb, fun _ => hbody⟩
  · have hr' : c'.replies = [(.ok, [])] := by
      have hpre := Conn.replies_mono h.log
      rw [hreplies] at hpre
      exact hr.eq_of_length_le hpre.length_le
    refine ⟨.inr ⟨hverb.trans hv, hr'⟩, h.disk_of_sending hs (by rw [hv]; simp),
      h.serverFiles_of_sending hs, hverb, fun ha => ?_⟩
    cases hv.symm.trans (hok.upload.opened (hok.upload.accepted ha).1)

/-- What the handler of a connection has done to the file and the listing of `w`, from `c` to `x`;
`m` says that allocations succeed. -/
inductive Effects (m : Prop) (w : Path) (c x : Ctx) : Prop
  | waiting (hdone₀ : ¬ Done c.toConn) (ho₀ : c.opened = false) (hdone : ¬ Done x.toConn)
      (ho : x.opened = false)
      (hread : x.disk.read (x.disk.tree.path w) = c.disk.read (c.disk.tree.path w))
      (hlist : x.serverFiles = c.serverFiles)
  | busy (hdone₀ : ¬ Done c.toConn) (hdone : ¬ Done x.toConn) (hlive : x.freed = false)
      (ho : x.opened = true) (hlist : x.serverFiles = c.serverFiles)
  | put {body : List Byte} (hdone₀ : ¬ Done c.toConn) (hacc : x.accepted = true)
      (hread : x.disk.read (x.disk.tree.path w) = some body) (hbody : ReceivedBody x.toConn body)
      (hlist : some w ∈ c.serverFiles.contents ∨ m → some w ∈ x.serverFiles.contents)
  | delete (hdone₀ : ¬ Done c.toConn) (hv : x.client.requestVerb = .delete)
      (hr : x.replies = [(.ok, [])]) (hread : x.disk.read (x.disk.tree.path w) = none)
      (hlist : some w ∉ x.serverFiles.contents)
  | kept (hdone₀ : Done c.toConn) (hdone : Done x.toConn)
      (hverb : x.client.requestVerb = c.client.requestVerb)
      (hbody : c.accepted = true → x.accepted = true ∧
        ∀ body, ReceivedBody c.toConn body → ReceivedBody x.toConn body)
      (hread : x.disk.read (x.disk.tree.path w) = c.disk.read (c.disk.tree.path w))
      (hlist : x.serverFiles = c.serverFiles)

/-- A name that was listed stays listed where an upload is accepted, and its own name is added. -/
theorem mem_acceptUpload {m : Prop} (hm : m → MemOk c) {w : Path} (hw : c.client.filename = w)
    (h : some w ∈ c.serverFiles.contents ∨ m) : some w ∈ (acceptUpload c).serverFiles.contents := by
  generalize hd : (readExtra c).2.note (.accept c.client.filename) = d
  have hacc : acceptUpload c = addFileToList d w := by
    rw [← hd, ← hw]
    rfl
  have hfiles : d.serverFiles = c.serverFiles := by
    rw [← hd]
    rfl
  rw [hacc]
  rcases h with hmem | hplenty
  · rw [← hfiles] at hmem
    rcases contents_addFileToList d w with heq | heq | ⟨-, heq⟩
    · rw [heq]
      exact hmem
    · rw [heq]
      exact List.mem_append_left _ hmem
    · rw [heq]
      exact List.mem_append_left _ hmem
  · obtain ⟨ws, hws⟩ := (hm hplenty).names
    have hnames : Names d.serverFiles ws := by
      rw [hfiles]
      exact hws
    have hmem : d.script.mem = [] := by
      rw [← hd]
      exact (Script.read_mem ..).trans (hm hplenty).mem
    have hlist := (names_addFileToList hnames hmem w).1
    rw [hlist]
    refine List.mem_map_of_mem ?_
    split_ifs with hin
    · exact hin
    · exact List.mem_append_right _ (List.mem_singleton_self _)

/-- The file of an upload under way holds the body so far. -/
def Writing (c : Ctx) : Prop := Busy c.toConn → Filled c

/-- Before a request takes effect its file, if it has one, is under way. -/
theorem Writing.filled (h : Writing c) (hok : ConnOk c) (hc : c.freed = false)
    (hdone : ¬ Done c.toConn) : Filled c := by
  have hacc : c.accepted = false := Bool.eq_false_of_not_eq_true fun ha => hdone (.inl ha)
  by_cases ho : c.opened = true
  · exact h ⟨hc, ho, hacc⟩
  · exact .of_not_accepted (fun hs => ho (hok.upload.data hs).1) hacc

theorem Writing.step (h : Writing c) (hok : ConnOk c) (hc : c.freed = false) (hstep : Step c c')
    (hok' : ConnOk c') : Writing c' := fun ⟨hc', ho, hacc⟩ => by
  refine (h.filled hok hc ?_).step hok hc hstep
  rintro (ha | ⟨hv, hr⟩)
  · cases hacc.symm.trans (Conn.accepted_mono hstep.log ha)
  · have hs : c.client.state ≠ .recvHeader := fun hs => by
      cases (hok.reply.silent (.inl hs)).2.symm.trans hr
    cases (hok'.upload.opened ho).symm.trans ((hstep.sameHeader hs).2.verb.trans hv)

/-- What is known of a connection in the middle of a handler. -/
structure Writer (m : Prop) (w : Path) (c x : Ctx) : Prop where
  sound : ConnOk x ∧ HandleOk x
  okAccepted : x.client.requestVerb = .put → x.replies = [(.ok, [])] → x.accepted = true
  listed : Listed x.toGlobals
  writing : Writing x
  memory : m → MemOk x
  effects : Effects m w c x

/-- Nothing that took effect or was closed is waiting. -/
theorem Answers.live {x y : Ctx} (hx : x.freed = false)
    (hacc : x.client.requestVerb = .put → x.replies = [(.ok, [])] → x.accepted = true)
    (hxy : Step x y) {w : Path} (hy : Answers w y.toConn) (hdone : ¬ Done x.toConn) :
    y.freed = false := by
  by_contra hfreed
  have hf : y.freed = true := by simpa using hfreed
  obtain ⟨hreplies, -⟩ := hy.closed hf
  obtain ⟨-, hverb⟩ := hy.request (.inl hf)
  cases hxy with
  | @close k hk =>
    rw [closeAndCleanup_replies, hk.replies] at hreplies
    rw [closeAndCleanup_client] at hverb
    have hv : k.client.requestVerb = x.client.requestVerb := hk.sameHeader.verb
    rcases hverb with hput | hdel
    · exact hdone (.inl (hacc (hv.symm.trans hput) hreplies))
    · exact hdone (.inr ⟨hv.symm.trans hdel, hreplies⟩)
  | quiet hq => cases hq <;> cases hx.symm.trans hf
  | receive hr => cases hr <;> cases hx.symm.trans hf
  | begin hb => cases hb <;> cases hx.symm.trans hf
  | choose hch => cases (hch.freed.trans hx).symm.trans hf
  | send hs => cases (hs.freed.trans hx).symm.trans hf
  | fault => cases hx.symm.trans hf

/-- **A step of a writer** leaves what it has done to the name as it was, or is the one in which its
request takes effect. -/
theorem Effects.step {m : Prop} {w : Path} {x y : Ctx} (h : Effects m w c x) (hx : x.freed = false)
    (hok : ConnOk x) (hacc : x.client.requestVerb = .put → x.replies = [(.ok, [])] →
      x.accepted = true) (hg : Listed x.toGlobals) (hm : m → MemOk x) (hw : Writing x)
    (hxy : Step x y) (hok' : ConnOk y) (hy : Answers w y.toConn)
    (hr : y.replies <+: [(.ok, [])]) : Effects m w c y := by
  have hclosed := Answers.live hx hacc hxy hy
  have htree := hxy.tree
  -- behind the effect
  have hafter := fun hd => hxy.of_done hx hok hd (fun hf => (hy.closed hf).2) hr
  cases h with
  | waiting hdone₀ ho₀ hdone ho hread hlist =>
    have hlive := hclosed hdone
    have hnacc : y.accepted = false := by
      by_contra hya
      rcases hxy.accepted_cases hok' (by simpa using hya) with hxa | ⟨hs, -⟩
      · exact hdone (.inl hxa)
      · cases ho.symm.trans (hok.upload.data hs).1
    by_cases hyd : Done y.toConn
    · obtain ⟨hv, hreplies⟩ := hyd.resolve_left fun ha => by cases hnacc.symm.trans ha
      rcases hxy.replied hok hv hreplies with ⟨hv', hr'⟩ | ⟨d, hch, rfl, hv', -⟩
      · exact absurd (.inr ⟨hv', hr'⟩) hdone
      · obtain ⟨hno, hnone⟩ := hch.deleted_gone hg hok hok'.request hv'
        have hname := (hy.request (.inr (fillResponse_sending d .ok []).ne.1)).1
        change d.client.filename = w at hname
        rw [hname] at hno hnone
        exact .delete hdone₀ hv hreplies hnone hno
    · have hfiles := (hxy.serverFiles_of_not_done hok hyd).trans hlist
      by_cases hyo : y.opened = true
      · exact .busy hdone₀ hyd hlive hyo hfiles
      · have hyo' := Bool.eq_false_of_not_eq_true hyo
        refine .waiting hdone₀ ho₀ hyd hyo' ?_ hfiles
        rw [hxy.disk_of_not_done hx hok hlive hyo' hyd]
        exact hread
  | busy hdone₀ hdone hlive ho hlist =>
    have hylive := hclosed hdone
    have hyo := Conn.opened_mono hxy.log ho
    by_cases hyd : Done y.toConn
    · have hput := hok'.upload.opened hyo
      have hya : y.accepted = true := hyd.resolve_right fun hd => by cases hput.symm.trans hd.1
      obtain ⟨body, hread, hbody, -⟩ :=
        ((hw.filled hok hx hdone).step hok hx hxy).accepted hylive hya
      have hset : y.toConn.Settled := .inr fun hs => by
        cases hyo.symm.trans (hok'.upload.header hs).1
      have hname := (hy.request hset).1
      rw [hok'.request.filepath_eq, hname] at hread
      refine .put hdone₀ hya hread hbody fun hor => ?_
      rcases hxy.accepted_cases hok' hya with hxa | ⟨hs, rfl⟩
      · exact absurd (.inl hxa) hdone
      · refine mem_acceptUpload hm ?_ (hor.imp_left fun h => hlist ▸ h)
        rw [← hname]
        change x.client.filename = (acceptUpload x).client.filename
        rw [acceptUpload_client]
    · exact .busy hdone₀ hyd hylive hyo ((hxy.serverFiles_of_not_done hok hyd).trans hlist)
  | put hdone₀ hacc' hread hbody hlist =>
    obtain ⟨-, hdisk, hfiles, -, hb⟩ := hafter (.inl hacc')
    refine .put hdone₀ (Conn.accepted_mono hxy.log hacc') ?_ (hb hacc' _ hbody) ?_
    · rw [hdisk]
      exact hread
    · rw [hfiles]
      exact hlist
  | delete hdone₀ hv hreplies hread hlist =>
    obtain ⟨hd, hdisk, hfiles, hverb, -⟩ := hafter (.inr ⟨hv, hreplies⟩)
    have hv' := hverb.trans hv
    have hd' := hd.resolve_left fun ha => by
      cases hv'.symm.trans (hok'.upload.opened (hok'.upload.accepted ha).1)
    refine .delete hdone₀ hv' hd'.2 ?_ ?_
    · rw [hdisk]
      exact hread
    · rw [hfiles]
      exact hlist
  | kept hdone₀ hdone hverb hbody hread hlist =>
    obtain ⟨hd, hdisk, hfiles, hverb', hb⟩ := hafter hdone
    refine .kept hdone₀ hd (hverb'.trans hverb) (fun ha => ?_) ?_ (hfiles.trans hlist)
    · obtain ⟨hxa, hxb⟩ := hbody ha
      exact ⟨Conn.accepted_mono hxy.log hxa, fun body hbo => hb hxa body (hxb body hbo)⟩
    · rw [hdisk]
      exact hread

theorem Answers.of_progress {w : Path} {a b : Conn} (h : a.Progress b) (hb : Answers w b) :
    Answers w a where
  request := fun hs => by
    obtain ⟨hs', hsame⟩ := h.settled hs
    obtain ⟨hname, hverb⟩ := hb.request hs'
    exact ⟨hsame.name.symm.trans hname, by rw [← hsame.verb]; exact hverb⟩
  closed := fun hf => by
    obtain rfl := h.freed hf
    exact hb.closed hf

theorem Effects.refl {m : Prop} {w : Path} (hc : c.freed = false) : Effects m w c c := by
  by_cases hd : Done c.toConn
  · exact .kept hd hd rfl (fun ha => ⟨ha, fun _ h => h⟩) rfl rfl
  · by_cases ho : c.opened = true
    · exact .busy hd hd hc ho rfl
    · have ho' := Bool.eq_false_of_not_eq_true ho
      exact .waiting hd ho' hd ho' rfl rfl

/-- **A handler of a writer**: nothing happens to the name, or its request takes effect. -/
theorem Handled.effects {m : Prop} {w : Path} (h : Handled c c') (hc : c.freed = false)
    (hs : ConnOk c ∧ HandleOk c) (hacc : c.client.requestVerb = .put → c.replies = [(.ok, [])] →
      c.accepted = true) (hg : Listed c.toGlobals) (hw : Writing c) (hm : m → MemOk c)
    {u : Conn} (hu : c'.toConn.Progress u) (ha : Answers w u) (hr : u.replies = [(.ok, [])]) :
    Effects m w c c' ∧ Writing c' := by
  cases h with
  | steps hsteps =>
    have hrun := Chain.between (P := Writer m w c) (fun x y _ ⟨hx, hxy⟩ hyc hw => by
      have hp : y.toConn.Progress u := (Steps.progress hyc).trans hu
      have hsound := connOk_handleOk_stable.step x y hx hw.sound hxy
      have hok := okAccepted_stable.step x y hx ⟨hw.sound.1, hw.okAccepted⟩ hxy
      refine ⟨hsound, hok.2, listed_shared.step x y hx hw.sound hw.listed hxy,
        hw.writing.step hw.sound.1 hx hxy hsound.1, fun h => (hw.memory h).step hxy, ?_⟩
      exact hw.effects.step hx hw.sound.1 hw.okAccepted hw.listed hw.memory hw.writing hxy hsound.1
        (ha.of_progress hp) (hr ▸ Conn.replies_mono hp.log)) hsteps
      ⟨hs, hacc, hg, hw, hm, .refl hc⟩
    exact ⟨hrun.effects, hrun.writing⟩
  | closed =>
    obtain ⟨hreplies, hsent⟩ := (ha.of_progress hu).closed rfl
    obtain ⟨-, hverb⟩ := (ha.of_progress hu).request (.inl rfl)
    have hdisk := closeAndCleanup_disk_of_replySent hs.1.reply hsent
    rw [closeAndCleanup_replies] at hreplies
    rw [closeAndCleanup_client] at hverb
    have hd : Done c.toConn := by
      rcases hverb with hput | hdel
      · exact .inl (hacc hput hreplies)
      · exact .inr ⟨hdel, hreplies⟩
    refine ⟨.kept hd ?_ ?_ (fun ha' => ⟨?_, fun body hbody => ?_⟩) ?_
      (closeAndCleanup_serverFiles c), fun hb => (by cases hb.1)⟩
    · rcases hd with hd | ⟨hv, hd⟩
      · exact .inl (by rw [closeAndCleanup_accepted]; exact hd)
      · refine .inr ⟨?_, by rw [closeAndCleanup_replies]; exact hd⟩
        rw [closeAndCleanup_client]
        exact hv
    · rw [closeAndCleanup_client]
    · rw [closeAndCleanup_accepted]
      exact ha'
    · rw [ReceivedBody, closeAndCleanup_received, closeAndCleanup_client]
      exact hbody
    · rw [hdisk]

end Steps

/-! ### Requests one after the other -/

/-- What a request that takes effect makes of the file and of the listing of its name.  An upload
leaves a name listed, and lists it where the allocations succeed (`m`). -/
inductive Effect (m : Prop) (u : Conn) (listed : Prop) (file' : Option (List Byte))
    (listed' : Prop) : Prop
  | put {body : List Byte} (hacc : u.accepted = true) (hbody : ReceivedBody u body)
      (hfile : file' = some body) (hlist : listed ∨ m → listed')
  | delete (hv : u.client.requestVerb = .delete) (hr : u.replies = [(.ok, [])])
      (hfile : file' = none) (hlist : ¬ listed')

/-- The requests of the connections `ks`, one after the other. -/
inductive Serial (m : Prop) (conns : List Conn) (file₀ : Option (List Byte)) (listed₀ : Prop) :
    List ConnId → Option (List Byte) → Prop → Prop
  | nil : Serial m conns file₀ listed₀ [] file₀ listed₀
  | snoc {ks : List ConnId} {k : ConnId} {u : Conn} {file file' : Option (List Byte)}
      {listed listed' : Prop} (h : Serial m conns file₀ listed₀ ks file listed)
      (hk : conns[k]? = some u) (he : Effect m u listed file' listed') :
      Serial m conns file₀ listed₀ (ks ++ [k]) file' listed'

theorem Serial.congr {m : Prop} {conns conns' : List Conn} {file₀ file : Option (List Byte)}
    {listed₀ listed : Prop} {ks : List ConnId} (h : Serial m conns file₀ listed₀ ks file listed)
    (hconns : ∀ k ∈ ks, ∀ u, conns[k]? = some u → ∃ u', conns'[k]? = some u' ∧
      ∀ l f' l', Effect m u l f' l' → Effect m u' l f' l') :
    Serial m conns' file₀ listed₀ ks file listed := by
  induction h with
  | nil => exact .nil
  | snoc h hk he ih =>
    obtain ⟨u', hk', he'⟩ := hconns _ (List.mem_append_right _ (List.mem_singleton_self _)) _ hk
    exact .snoc (ih fun k hk => hconns k (List.mem_append_left _ hk)) hk' (he' _ _ _ he)

/-- Since the state `s`, the requests of the connections `ks` have taken effect,
in this order. -/
structure Serialized (m : Prop) (w : Path) (s t : Server) (ks : List ConnId)
    (file : Option (List Byte)) : Prop where
  nodup : ks.Nodup
  done : ∀ k, k ∈ ks ↔ s.conns.length ≤ k ∧ ∃ u, t.conns[k]? = some u ∧ Done u
  serial : Serial m t.conns (s.disk.read (s.disk.tree.path w)) (some w ∈ s.serverFiles.contents)
    ks file (some w ∈ t.serverFiles.contents)
  file : (∀ u ∈ t.conns, ¬ Busy u) → file = t.disk.read (t.disk.tree.path w)

section Runs

variable {s t : Server} {m : Prop} {w : Path}

theorem Done.not_newConn {fd : Int} {script : Script} : ¬ Done (newConn fd script) := by
  rintro (h | ⟨h, -⟩) <;> cases h

/-- The handler of connection `j` and the requests that took effect. -/
theorem Serialized.put {ks : List ConnId} {file : Option (List Byte)}
    (h : Serialized m w s t ks file)
    {t' : Server} {j : ConnId} {conn : Conn} {c : Ctx} (hj : t.conns[j]? = some conn)
    (hn : s.conns.length ≤ j) (hok : ConnOk (t.ctx conn)) (hok' : ConnOk c)
    (he : Effects m w (t.ctx conn) c)
    (hconns : t'.conns = (t.put j c).conns) (hdisk : t'.disk = c.disk)
    (hfiles : t'.serverFiles = c.serverFiles) : ∃ ks' file', Serialized m w s t' ks' file' := by
  have hself : t'.conns[j]? = some c.toConn := by rw [hconns, Server.put_conns_self c hj]
  have hother : ∀ {k : ConnId}, k ≠ j → t'.conns[k]? = t.conns[k]? := fun hkj => by
    rw [hconns, Server.put_conns_of_ne c hkj]
  have hread : t'.disk.read (t'.disk.tree.path w) = c.disk.read (c.disk.tree.path w) := by
    rw [hdisk]
  -- whether a request has taken effect changes for connection `j` only
  have hsame : (Done c.toConn ↔ Done conn) → ∀ k,
      k ∈ ks ↔ s.conns.length ≤ k ∧ ∃ u, t'.conns[k]? = some u ∧ Done u := by
    intro hdone k
    rw [h.done]
    refine and_congr_right fun _ => ?_
    by_cases hkj : k = j
    · subst hkj
      rw [hj, hself]
      simp [hdone]
    · rw [hother hkj]
  have hnew : ¬ Done conn → Done c.toConn → ∀ k,
      k ∈ ks ++ [j] ↔ s.conns.length ≤ k ∧ ∃ u, t'.conns[k]? = some u ∧ Done u := by
    intro hno hdone k
    rw [List.mem_append, List.mem_singleton, h.done]
    by_cases hkj : k = j
    · subst hkj
      rw [hself]
      simp [hn, hdone]
    · rw [hother hkj]
      simp [hkj]
  have hnot : ¬ Done conn → j ∉ ks := fun hno hmem => by
    obtain ⟨-, u, hu, hd⟩ := (h.done j).mp hmem
    obtain rfl := Option.some.inj (hj.symm.trans hu)
    exact hno hd
  have hserial : (j ∈ ks → ∀ l f' l', Effect m conn l f' l' → Effect m c.toConn l f' l') →
      Serial m t'.conns (s.disk.read (s.disk.tree.path w)) (some w ∈ s.serverFiles.contents)
        ks file (some w ∈ t.serverFiles.contents) := fun heff =>
    h.serial.congr fun k hk u hu => by
      by_cases hkj : k = j
      · subst hkj
        obtain rfl := Option.some.inj (hj.symm.trans hu)
        exact ⟨c.toConn, hself, heff hk⟩
      · exact ⟨u, (hother hkj).trans hu, fun _ _ _ h => h⟩
  -- the others are as busy as before
  have hbusy : ¬ Busy conn → (∀ u ∈ t'.conns, ¬ Busy u) → ∀ u ∈ t.conns, ¬ Busy u := by
    intro hno hall u hu
    obtain ⟨k, hk⟩ := List.getElem?_of_mem hu
    by_cases hkj : k = j
    · subst hkj
      obtain rfl := Option.some.inj (hj.symm.trans hk)
      exact hno
    · exact hall u (List.mem_of_getElem? ((hother hkj).trans hk))
  cases he with
  | waiting hdone₀ ho₀ hdone ho hr hl =>
    refine ⟨ks, file, h.nodup, hsame (iff_of_false hdone hdone₀), ?_, fun hall => ?_⟩
    · rw [hfiles, hl]
      exact hserial fun hmem => absurd hmem (hnot hdone₀)
    · rw [hread, hr]
      exact h.file (hbusy (fun hb => by cases ho₀.symm.trans hb.2.1) hall)
  | busy hdone₀ hdone hlive ho hl =>
    refine ⟨ks, file, h.nodup, hsame (iff_of_false hdone hdone₀), ?_, fun hall => ?_⟩
    · rw [hfiles, hl]
      exact hserial fun hmem => absurd hmem (hnot hdone₀)
    · refine absurd ⟨hlive, ho, ?_⟩ (hall _ (List.mem_of_getElem? hself))
      exact Bool.eq_false_of_not_eq_true fun ha => hdone (.inl ha)
  | put hdone₀ hacc hr hbody hl =>
    refine ⟨ks ++ [j], _, ?_, hnew hdone₀ (.inl hacc), ?_, fun _ => rfl⟩
    · exact List.nodup_append.mpr ⟨h.nodup, List.nodup_singleton _, fun a ha b hb hab => by
        obtain rfl := List.mem_singleton.mp hb
        exact hnot hdone₀ (hab ▸ ha)⟩
    · refine .snoc (hserial fun hmem => absurd hmem (hnot hdone₀)) hself ?_
      refine .put hacc hbody (hread.trans hr) ?_
      rw [hfiles]
      exact hl
  | delete hdone₀ hv hreplies hr hl =>
    refine ⟨ks ++ [j], _, ?_, hnew hdone₀ (.inr ⟨hv, hreplies⟩), ?_, fun _ => rfl⟩
    · exact List.nodup_append.mpr ⟨h.nodup, List.nodup_singleton _, fun a ha b hb hab => by
        obtain rfl := List.mem_singleton.mp hb
        exact hnot hdone₀ (hab ▸ ha)⟩
    · refine .snoc (hserial fun hmem => absurd hmem (hnot hdone₀)) hself ?_
      refine .delete hv hreplies (hread.trans hr) ?_
      rw [hfiles]
      exact hl
  | kept hdone₀ hdone hverb hbody hr hl =>
    refine ⟨ks, file, h.nodup, hsame (iff_of_true hdone hdone₀), ?_, fun hall => ?_⟩
    · rw [hfiles, hl]
      refine hserial fun _ l f' l' heff => ?_
      cases heff with
      | put hacc hb hf hlist =>
        obtain ⟨hacc', hb'⟩ := hbody hacc
        exact .put hacc' (hb' _ hb) hf hlist
      | delete hv hreplies hf hlist =>
        have hv' : c.client.requestVerb = .delete := hverb.trans hv
        refine .delete hv' (hdone.resolve_left fun ha => ?_).2 hf hlist
        cases hv'.symm.trans (hok'.upload.opened (hok'.upload.accepted ha).1)
    · rw [hread, hr]
      refine h.file (hbusy (fun hb => ?_) hall)
      rcases hdone₀ with ha | ⟨hv, -⟩
      · cases hb.2.2.symm.trans ha
      · cases hv.symm.trans (hok.upload.opened hb.2.1)

/-- A new connection has done nothing yet. -/
theorem Serialized.accept {ks : List ConnId} {file : Option (List Byte)}
    (h : Serialized m w s t ks file) {t' : Server} {u : Conn} (hu : ¬ Done u)
    (hconns : t'.conns = t.conns ++ [u]) (hdisk : t'.disk = t.disk)
    (hfiles : t'.serverFiles = t.serverFiles) : Serialized m w s t' ks file := by
  have hold : ∀ {k : ConnId} {v : Conn}, t.conns[k]? = some v →
      t'.conns[k]? = some v := fun hk => by
    obtain ⟨hlt, -⟩ := List.getElem?_eq_some_iff.mp hk
    rw [hconns]
    exact (List.getElem?_append_left hlt).trans hk
  refine ⟨h.nodup, fun k => ?_, ?_, fun hall => ?_⟩
  · rw [h.done]
    refine and_congr_right fun _ => ⟨fun ⟨v, hk, hd⟩ => ⟨v, hold hk, hd⟩, fun ⟨v, hk, hd⟩ => ?_⟩
    rw [hconns] at hk
    rcases Nat.lt_or_ge k t.conns.length with hlt | hge
    · rw [List.getElem?_append_left hlt] at hk
      exact ⟨v, hk, hd⟩
    · rw [List.getElem?_append_right hge] at hk
      obtain rfl := List.mem_singleton.mp (List.mem_of_getElem? hk)
      exact absurd hd hu
  · rw [hfiles]
    exact h.serial.congr fun k _ v hk => ⟨v, hold hk, fun _ _ _ h => h⟩
  · rw [hdisk]
    refine h.file fun v hv => hall v ?_
    rw [hconns]
    exact List.mem_append_left _ hv

/-- No step of another connection changes the file of an upload under way. -/
def Apart (s s' : Server) : Prop :=
  ∀ (j : ConnId) (u : Conn) (l : Loc), s.conns[j]? = some u → s'.conns[j]? = some u → Busy u →
    s.target u = .entry l → s'.disk.slot l = s.disk.slot l

/-- What holds throughout a run from `s` whose requests write `w`. -/
structure Writers (m : Prop) (w : Path) (s t : Server) : Prop where
  writing : ∀ u ∈ t.conns, Writing (t.ctx u)
  memory : m → Plenty t
  serialized : ∃ ks file, Serialized m w s t ks file

theorem Writers.act (ht : Reachable t) (hle : Server.Le s t) (hdead : ∀ u ∈ s.conns, u.freed = true)
    {a : Action} (ha : m → a.Plenty) (hapart : Apart t (t.act a))
    (hend : ∀ (k : ConnId) (u : Conn), s.conns.length ≤ k → (t.act a).conns[k]? = some u →
      ∃ v : Conn, u.Progress v ∧ Answers w v ∧ v.replies = [(.ok, [])])
    (h : Writers m w s t) : Writers m w s (t.act a) := by
  have hsound := connOk_handleOk_stable.reachable ht
  have hokacc := okAccepted_stable.reachable ht
  have hplenty : m → Plenty (t.act a) := fun hm =>
    (h.memory hm).act ht.mapInv (fun u hu => (hsound u hu).1) (ha hm)
  have hturn := Server.act_turn ht.mapInv a
  have htree := (Server.turn_le hturn).disk.tree
  generalize t.act a = t' at hturn htree hapart hend hplenty
  obtain ⟨ks, file, hser⟩ := h.serialized
  have hput : ∀ {j : ConnId} {conn : Conn} {c : Ctx}, t.conns[j]? = some conn →
      conn.freed = false → Handled (t.ctx conn) c → t'.conns = (t.put j c).conns →
      t'.disk = c.disk → t'.serverFiles = c.serverFiles → Writers m w s t' := by
    intro j conn c hj hlive hc hconns hdisk hfiles
    have hself : t'.conns[j]? = some c.toConn := by rw [hconns, Server.put_conns_self c hj]
    have hmem := List.mem_of_getElem? hj
    -- the connections that were there are closed
    have hn : s.conns.length ≤ j := by
      by_contra hlt
      obtain ⟨v, hv, hp⟩ := hle.conns j _ (List.getElem?_eq_getElem (Nat.lt_of_not_le hlt))
      obtain rfl := Option.some.inj (hj.symm.trans hv)
      cases hlive.symm.trans (hp.freed_true (hdead _ (List.getElem_mem _)))
    obtain ⟨v, hp, hans, hr⟩ := hend j _ hn hself
    obtain ⟨heff, hw⟩ := hc.effects hlive (hsound conn hmem) (hokacc conn hmem).2 ht.listed
      (h.writing conn hmem) (fun hm => ⟨((h.memory hm).conns conn hmem).1, (h.memory hm).names⟩)
      hp hans hr
    have hok' : ConnOk c := (hc.invariant hlive (hsound conn hmem)
      connOk_handleOk_stable.step connOk_handleOk_stable.close).1
    refine ⟨fun u hu => ?_, hplenty,
      hser.put hj hn (hsound conn hmem).1 hok' heff hconns hdisk hfiles⟩
    obtain ⟨k, hk⟩ := List.getElem?_of_mem hu
    by_cases hkj : k = j
    · subst hkj
      obtain rfl := Option.some.inj (hself.symm.trans hk)
      exact fun hb => (hw hb).congr rfl rfl (.refl _) (congrArg Disk.tree hdisk) fun l _ =>
        congrArg (Disk.slot · l) hdisk
    · have hk' : t.conns[k]? = some u := by
        rw [hconns, Server.put_conns_of_ne c hkj] at hk
        exact hk
      exact fun hb => (h.writing u (List.mem_of_getElem? hk') hb).congr rfl rfl (.refl _) htree
        fun l hl => hapart k u l hk' hk hb hl
  cases hturn with
  | idle => exact h
  | @accept fd script rest grow hfd =>
    refine ⟨fun u hu => ?_, hplenty, ks, file, hser.accept Done.not_newConn rfl rfl rfl⟩
    rcases List.mem_append.mp hu with hu | hu
    · exact fun hb => (h.writing u hu hb).congr rfl rfl (.refl _) rfl fun _ _ => rfl
    · obtain rfl := List.mem_singleton.mp hu
      exact fun hb => by cases hb.2.1
  | handle hget hj hlive hc => exact hput hj hlive (.steps hc) rfl rfl rfl
  | error hev hget hj hlive => exact hput hj hlive .closed rfl rfl rfl
  | noMemory =>
    exact ⟨fun u hu hb => (h.writing u hu hb).congr rfl rfl (.refl _) rfl fun _ _ => rfl,
      hplenty, ks, file, hser.nodup, hser.done, hser.serial, hser.file⟩
  | useAfterFree hev hget hj hlive hc => exact hput hj hlive (.steps hc) rfl rfl rfl

/-- The requests of a run that writes `w` are served in one order. -/
theorem Writers.run (hs : Reachable s) (hdead : ∀ u ∈ s.conns, u.freed = true) {acts : List Action}
    (hsteps : ∀ pre a post, acts = pre ++ a :: post →
      Apart (s.run pre) (s.run (pre ++ [a])))
    (hend : ∀ (k : ConnId) (u : Conn), s.conns.length ≤ k → (s.run acts).conns[k]? = some u →
      Answers w u ∧ u.replies = [(.ok, [])]) :
    Writers (Plenty s ∧ ∀ a ∈ acts, a.Plenty) w s (s.run acts) := by
  refine Chain.run_between (I := Writers (Plenty s ∧ ∀ a ∈ acts, a.Plenty) w s) s acts
    (fun pre a post heq h => ?_) ⟨fun u hu hb => ?_, fun hm => hm.1, [], _, List.nodup_nil,
      fun k => ⟨fun hk => absurd hk List.not_mem_nil, fun ⟨hn, u, hu, _⟩ => ?_⟩, .nil,
      fun _ => rfl⟩
  · have hapart := hsteps pre a post heq
    rw [Server.run_concat] at hapart
    refine Writers.act (hs.run pre) (Server.run_le hs.mapInv pre) hdead
      (fun hm => hm.2 a (by rw [heq]; simp)) hapart (fun k u hn hu => ?_) h
    rw [← Server.run_concat] at hu
    obtain ⟨v, hv, hp⟩ := Server.conn_mono hs.mapInv hu post
    rw [List.append_assoc, List.singleton_append, ← heq] at hv
    exact ⟨v, hp, hend k v hn hv⟩
  · cases (hdead u hu).symm.trans hb.1
  · rw [List.getElem?_eq_none hn] at hu
    cases hu

theorem Serial.concat_inv {conns : List Conn} {file₀ file : Option (List Byte)}
    {listed₀ listed : Prop} (ks : List ConnId) {k : ConnId}
    (h : Serial m conns file₀ listed₀ (ks ++ [k]) file listed) :
    ∃ u file₁ listed₁, Serial m conns file₀ listed₀ ks file₁ listed₁ ∧ conns[k]? = some u ∧
      Effect m u listed₁ file listed := by
  generalize hks : ks ++ [k] = ks' at h
  cases h with
  | nil => cases ks <;> cases hks
  | snoc h hk he =>
    obtain ⟨rfl, hlast⟩ := List.append_inj' hks rfl
    obtain rfl := List.singleton_inj.mp hlast
    exact ⟨_, _, _, h, hk, he⟩

theorem Serial.nil_inv {conns : List Conn} {file₀ file : Option (List Byte)}
    {listed₀ listed : Prop} (h : Serial m conns file₀ listed₀ [] file listed) :
    listed = listed₀ := by
  generalize hks : ([] : List ConnId) = ks' at h
  cases h with
  | nil => rfl
  | @snoc ks => cases ks <;> cases hks

/-- A PUT or DELETE of `w` was answered OK, and the answer was sent. -/
structure AnsweredOk (w : Path) (u : Conn) : Prop where
  name : u.client.filename = w
  verb : u.client.requestVerb = .put ∨ u.client.requestVerb = .delete
  replies : u.replies = [(.ok, [])]
  sent : ReplySent u

/-- The file and the listing of `w` in `t` are what the request of `u` and then that of `v` make
of those in `s`. -/
def OneAfterOther (m : Prop) (w : Path) (s t : Server) (u v : Conn) : Prop :=
  ∃ file listed, Effect m u (some w ∈ s.serverFiles.contents) file listed ∧
    Effect m v listed (t.disk.read (t.disk.tree.path w)) (some w ∈ t.serverFiles.contents)

theorem Serial.pair {conns : List Conn} {file₀ : Option (List Byte)} {i j : ConnId} {u v : Conn}
    (hi : conns[i]? = some u) (hj : conns[j]? = some v)
    (h : Serial m conns file₀ (some w ∈ s.serverFiles.contents) [i, j]
      (t.disk.read (t.disk.tree.path w)) (some w ∈ t.serverFiles.contents)) :
    OneAfterOther m w s t u v := by
  obtain ⟨v', file, listed, h, hj', hv⟩ := Serial.concat_inv [i] h
  obtain ⟨u', file₁, listed₁, h, hi', hu⟩ := Serial.concat_inv [] h
  obtain rfl := Option.some.inj (hi.symm.trans hi')
  obtain rfl := Option.some.inj (hj.symm.trans hj')
  obtain rfl := h.nil_inv
  exact ⟨file, listed, hu, hv⟩

/-- **Writers of one name are serializable** where each leaves alone the file of an upload of the
other that is under way. -/
theorem serializable (hs : Reachable s) (hdead : ∀ u ∈ s.conns, u.freed = true)
    {acts : List Action} {u v : Conn} (hconns : (s.run acts).conns = s.conns ++ [u, v])
    (hu : AnsweredOk w u) (hv : AnsweredOk w v)
    (hsteps : ∀ pre a post, acts = pre ++ a :: post →
      Apart (s.run pre) (s.run (pre ++ [a]))) :
    OneAfterOther (Plenty s ∧ ∀ a ∈ acts, a.Plenty) w s (s.run acts) u v ∨
      OneAfterOther (Plenty s ∧ ∀ a ∈ acts, a.Plenty) w s (s.run acts) v u := by
  have hnew : ∀ (k : ConnId) (x : Conn), (s.run acts).conns[k]? = some x →
      k < s.conns.length ∧ x ∈ s.conns ∨ k = s.conns.length ∧ x = u ∨
        k = s.conns.length + 1 ∧ x = v := by
    intro k x hx
    rw [hconns] at hx
    rcases Nat.lt_or_ge k s.conns.length with hlt | hge
    · rw [List.getElem?_append_left hlt] at hx
      exact .inl ⟨hlt, List.mem_of_getElem? hx⟩
    · obtain ⟨i, rfl⟩ := Nat.exists_eq_add_of_le hge
      rw [List.getElem?_append_right hge, Nat.add_sub_cancel_left] at hx
      match i, hx with
      | 0, hx => exact .inr (.inl ⟨rfl, (Option.some.inj hx).symm⟩)
      | 1, hx => exact .inr (.inr ⟨rfl, (Option.some.inj hx).symm⟩)
  have hfst : (s.run acts).conns[s.conns.length]? = some u := by
    rw [hconns, List.getElem?_append_right (Nat.le_refl _), Nat.sub_self]
    rfl
  have hsnd : (s.run acts).conns[s.conns.length + 1]? = some v := by
    rw [hconns, List.getElem?_append_right (Nat.le_add_right _ 1), Nat.add_sub_cancel_left]
    rfl
  have hans : ∀ x, AnsweredOk w x → Answers w x ∧ x.replies = [(.ok, [])] := fun x hx =>
    ⟨⟨fun _ => ⟨hx.name, hx.verb⟩, fun _ => ⟨hx.replies, hx.sent⟩⟩, hx.replies⟩
  have hok := okAccepted_stable.reachable (hs.run acts)
  have hdone : ∀ x ∈ (s.run acts).conns, AnsweredOk w x → Done x := fun x hx h =>
    h.verb.imp (fun hput => (hok x hx).2 hput h.replies) fun hdel => ⟨hdel, h.replies⟩
  obtain ⟨ks, file, hser⟩ := (Writers.run hs hdead hsteps fun k x hn hx => by
    rcases hnew k x hx with ⟨hlt, -⟩ | ⟨-, rfl⟩ | ⟨-, rfl⟩
    · exact absurd hn (Nat.not_le_of_lt hlt)
    · exact hans _ hu
    · exact hans _ hv).serialized
  have hu' := hdone u (List.mem_of_getElem? hfst) hu
  have hv' := hdone v (List.mem_of_getElem? hsnd) hv
  have hserial := hser.serial
  rw [hser.file fun x hx hb => ?_] at hserial
  · have hperm : ks.Perm [s.conns.length, s.conns.length + 1] := by
      refine (List.perm_ext_iff_of_nodup hser.nodup (by simp)).mpr fun k => ?_
      rw [hser.done, List.mem_pair]
      constructor
      · rintro ⟨hn, x, hx, -⟩
        rcases hnew k x hx with ⟨hlt, -⟩ | ⟨hk, -⟩ | ⟨hk, -⟩
        · exact absurd hn (Nat.not_le_of_lt hlt)
        · exact .inl hk
        · exact .inr hk
      · rintro (rfl | rfl)
        · exact ⟨Nat.le_refl _, u, hfst, hu'⟩
        · exact ⟨Nat.le_succ _, v, hsnd, hv'⟩
    rcases List.perm_pair.mp hperm with rfl | rfl
    · exact .inl (hserial.pair hfst hsnd)
    · exact .inr (hserial.pair hsnd hfst)
  · obtain ⟨k, hk⟩ := List.getElem?_of_mem hx
    have hupload := (hok x hx).1.upload
    rcases hnew k x hk with ⟨-, hmem⟩ | ⟨-, rfl⟩ | ⟨-, rfl⟩
    · cases (hdead x hmem).symm.trans hb.1
    · exact hb.not_done hupload hu'
    · exact hb.not_done hupload hv'

end Runs

/-- The list names the files of the directory. -/
def Agreeing (s : Server) : Prop :=
  ∀ w, some w ∈ s.serverFiles.contents ↔ (s.disk.lookup (s.disk.tree.temp, w)).isSome

/-- Two clients upload `x`, with the bodies `hi` and `no`; the first one pauses in its body. -/
def uploadsOfX (events : List Action) : List Action :=
  .accept 5 ⟨pushBack (ascii "PUT x\n" ++ sizeBytes 2 ++ ascii "h")
      (.eagain :: pushBack (ascii "i") []), [.room 3], [], []⟩ ::
    .accept 6 ⟨pushBack (ascii "PUT x\n" ++ sizeBytes 2 ++ ascii "no") [], [.room 3], [], []⟩ ::
    events

/-- The second upload begins when the first is over. -/
def inTurn : List Action := uploadsOfX
  [.event 5 .onRead, .event 5 .onRead, .event 5 .onRead, .event 6 .onRead, .event 6 .onRead]

/-- The second upload runs while the first one pauses. -/
def overlapping : List Action := uploadsOfX
  [.event 5 .onRead, .event 5 .onRead, .event 6 .onRead, .event 6 .onRead, .event 5 .onRead]

theorem boot_bareDisk_reachable : Reachable (Server.boot bareDisk) :=
  ⟨bareDisk, [], bareDisk_fresh, rfl⟩

theorem answeredOk_of {w : Path} {u : Conn} (hname : u.client.filename = w)
    (hverb : u.client.requestVerb = .put) (hreplies : u.replies = [(.ok, [])])
    (hsent : u.sent = responseText .ok []) : AnsweredOk w u :=
  ⟨hname, .inl hverb, hreplies, .ok, [], hreplies, hsent⟩

theorem serializable_inTurn : ∃ u v, ((Server.boot bareDisk).run inTurn).conns = [u, v] ∧
    (OneAfterOther (Plenty (.boot bareDisk) ∧ ∀ a ∈ inTurn, a.Plenty) (ascii "x")
      (.boot bareDisk) ((Server.boot bareDisk).run inTurn) u v ∨
    OneAfterOther (Plenty (.boot bareDisk) ∧ ∀ a ∈ inTurn, a.Plenty) (ascii "x")
      (.boot bareDisk) ((Server.boot bareDisk).run inTurn) v u) := by
  obtain ⟨u, v, huv⟩ := List.length_eq_two.mp
    (show ((Server.boot bareDisk).run inTurn).conns.length = 2 by decide +kernel)
  have hok : ∀ x ∈ ((Server.boot bareDisk).run inTurn).conns, x.client.filename = ascii "x" ∧
      x.client.requestVerb = .put ∧ x.replies = [(.ok, [])] ∧ x.sent = responseText .ok [] := by
    decide +kernel
  have hans : ∀ x ∈ [u, v], AnsweredOk (ascii "x") x := fun x hx => by
    obtain ⟨hname, hverb, hreplies, hsent⟩ := hok x (huv ▸ hx)
    exact answeredOk_of hname hverb hreplies hsent
  refine ⟨u, v, huv, serializable boot_bareDisk_reachable (fun u hu => by cases hu)
    (huv.trans (List.nil_append _).symm) (hans u (by simp)) (hans v (by simp))
    ((Chain.forall_step_iff (P := fun pre pre' => Apart ((Server.boot bareDisk).run pre)
      ((Server.boot bareDisk).run pre'))).mpr fun k hk j u l hj hj' hbusy _ => ?_)⟩
  -- each step in an upload is one of its own connection
  have hlen : ∀ k < 7, ((Server.boot bareDisk).run (inTurn.take k)).conns.length ≤ 2 := by
    decide +kernel
  have hmoves : ∀ k < 7, ∀ j < 2,
      (∀ u ∈ ((Server.boot bareDisk).run (inTurn.take k)).conns[j]?, ¬ Busy u) ∨
        (((Server.boot bareDisk).run (inTurn.take k)).conns[j]?.map fun u => u.log.length) ≠
          ((Server.boot bareDisk).run (inTurn.take (k + 1))).conns[j]?.map fun u => u.log.length :=
    by decide +kernel
  obtain ⟨hjlt, -⟩ := List.getElem?_eq_some_iff.mp hj
  rcases hmoves k hk j (Nat.lt_of_lt_of_le hjlt (hlen k hk)) with hidle | hmoved
  · exact absurd hbusy (hidle u hj)
  · exact absurd (by rw [hj, hj']) hmoved

/-- The second upload runs while the first one pauses: the file is a mixture of the two bodies. -/
theorem not_serializable_overlap : ¬ ∀ s : Server, Reachable s → (∀ u ∈ s.conns, u.freed = true) →
    Agreeing s → ∀ (acts : List Action) (w : Path) (u v : Conn), slash ∉ w ∧ w ≠ [] ∧
      w.length ≤ 255 → (s.run acts).conns = s.conns ++ [u, v] → AnsweredOk w u → AnsweredOk w v →
    OneAfterOther (Plenty s ∧ ∀ a ∈ acts, a.Plenty) w s (s.run acts) u v ∨
      OneAfterOther (Plenty s ∧ ∀ a ∈ acts, a.Plenty) w s (s.run acts) v u := by
  intro h
  obtain ⟨u, v, huv⟩ := List.length_eq_two.mp
    (show ((Server.boot bareDisk).run overlapping).conns.length = 2 by decide +kernel)
  have hok : ∀ x ∈ ((Server.boot bareDisk).run overlapping).conns,
      x.client.filename = ascii "x" ∧ x.client.requestVerb = .put ∧ x.replies = [(.ok, [])] ∧
        x.sent = responseText .ok [] ∧
        x.received ≠ x.client.headerBuf ++ sizeBytes x.client.expectedSize ++ ascii "ni" := by
    decide +kernel
  rw [huv] at hok
  have hfile : ((Server.boot bareDisk).run overlapping).disk.read
      (((Server.boot bareDisk).run overlapping).disk.tree.path (ascii "x")) =
        some (ascii "ni") := by decide +kernel
  have hans : ∀ x ∈ [u, v], AnsweredOk (ascii "x") x := fun x hx => by
    obtain ⟨hname, hverb, hreplies, hsent, -⟩ := hok x hx
    exact answeredOk_of hname hverb hreplies hsent
  -- neither of the two requests can have been the last one
  have hlast : ∀ x ∈ [u, v], ∀ m listed listed', ¬ Effect m x listed
      (((Server.boot bareDisk).run overlapping).disk.read
        (((Server.boot bareDisk).run overlapping).disk.tree.path (ascii "x"))) listed' := by
    intro x hx m listed listed' heff
    rw [hfile] at heff
    obtain ⟨-, hverb, -, -, hne⟩ := hok x hx
    cases heff with
    | put hacc hbody hf hl =>
      obtain rfl := Option.some.inj hf
      exact hne hbody
    | delete hv => cases hverb.symm.trans hv
  rcases h _ boot_bareDisk_reachable (fun u hu => by cases hu)
    (fun w => ⟨fun hw => absurd hw List.not_mem_nil, fun hw => by cases hw⟩) overlapping
    (ascii "x") u v (by decide) (huv.trans (List.nil_append _).symm) (hans u (by simp))
    (hans v (by simp)) with ⟨_, _, -, heff⟩ | ⟨_, _, -, heff⟩
  · exact hlast v (by simp) _ _ _ heff
  · exact hlast u (by simp) _ _ _ heff

end FileServer
