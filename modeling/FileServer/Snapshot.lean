/-
  Downloads while others write.

  A GET takes the size of its file once and reads the bytes as the socket takes them,
  and no upload waits for it.  So a file that is uploaded again during a download is
  sent as a mixture (`not_download_snapshot_reupload`).  Where no upload opens the very file
  that is being sent, the whole of it is sent as it was (`download_snapshot`): a
  DELETE does no harm, since the file stays as long as it is open, and an upload after
  it creates another file.
-/
import FileServer.Download
import FileServer.FailedUpload
import FileServer.Record
import FileServer.Replies

namespace FileServer

/-- The connection receives the body of an upload into the file. -/
def Writes (c : Conn) (f : Handle) : Prop :=
  c.freed = false ∧ c.client.state = .recvPutData ∧ c.client.fileFd = some f

instance (c : Conn) (f : Handle) : Decidable (Writes c f) :=
  inferInstanceAs (Decidable (_ ∧ _ ∧ _))

/-! ### What a step writes -/

section Steps

variable {c c' : Ctx} {st : Status} {msg : List Byte} {f : Handle}

theorem Writes.not_of_state {a : Conn} (h : a.client.state ≠ .recvPutData) : ¬ Writes a f :=
  fun hw => h hw.2.1

theorem Disk.bytes_unlink (k : Disk) (p : Path) : (k.unlink p).2.bytes f = k.bytes f := by
  cases f with
  | file l gen => exact Disk.unlink_content _ _ _ _
  | dir d => rfl

theorem sysUnlink_bytes (p : Path) : (c.sysUnlink p).2.disk.bytes f = c.disk.bytes f := by
  rcases c.sysUnlink_cases p with ⟨-, hd, -⟩ | ⟨-, hd⟩
  · rw [hd]
  · rw [hd, Disk.bytes_unlink]

theorem closeAndCleanup_bytes (k : Ctx) : (closeAndCleanup k).disk.bytes f = k.disk.bytes f := by
  rw [closeAndCleanup_disk]
  split_ifs
  · exact sysUnlink_bytes _
  · rfl

/-- Writing to one file leaves the others alone. -/
theorem sysPwrite_bytes {l : Loc} {gen : Nat} (hlt : gen < (c.disk.slot l).files.length)
    (hne : f ≠ .file l gen) (bs : List Byte) (off : Nat) :
    (c.sysPwrite (.file l gen) bs off).2.disk.bytes f = c.disk.bytes f := by
  rcases c.sysPwrite_disk (.file l gen) bs off with hd | ⟨n, hd⟩
  · rw [hd]
  · rw [hd]
    cases f with
    | dir d => rfl
    | file m g =>
      by_cases hm : m = l
      · subst hm
        refine (Disk.content_pwrite _ g _ off hlt).trans (if_neg fun hg => hne ?_)
        rw [hg]
      · exact Disk.content_congr (Disk.pwrite_slot_of_ne _ _ _ _ hm) g

/-- Opening one file for writing leaves the others alone. -/
theorem sysOpenWrite_bytes (p : Path) (hne : (c.sysOpenWrite p).1 ≠ some f) :
    (c.sysOpenWrite p).2.disk.bytes f = c.disk.bytes f := by
  cases ho : (c.sysOpenWrite p).1 with
  | none => rw [Ctx.sysOpenWrite_none_disk _ _ ho]
  | some g =>
    obtain ⟨hopen, hd⟩ := Ctx.sysOpenWrite_some_disk _ _ ho
    rw [hd]
    cases f with
    | dir d => rfl
    | file m gen =>
      by_cases hm : c.disk.tree.resolve p = .entry m
      · obtain ⟨gen', hopen', -, -, hother, -⟩ := Disk.openWrite_entry _ hm
        refine hother gen fun hg => hne ?_
        rw [ho, ← hopen, hopen', hg]
      · exact Disk.content_congr (Disk.openWrite_slot_of_ne _ hm) gen

theorem Choose.bytes (h : Choose c c' st msg) (hh : HandleOk c) (hc : c.freed = false)
    (hw : ¬ Writes c.toConn f) : c'.disk.bytes f = c.disk.bytes f := by
  cases h with
  | @deleteFailed w => exact sysUnlink_bytes (c := takeLine c (.delete w)) _
  | @deleted w =>
    rw [removeFileFromList_disk]
    exact sysUnlink_bytes (c := takeLine c (.delete w)) _
  | openFailed hs hlen ho =>
    exact congrArg (Disk.bytes · f) (Ctx.sysOpenWrite_none_disk (c.setClient _) c.filepath ho)
  | @bodyFailed bs g hs hlen hr hne hg =>
    obtain ⟨l, gen, hu⟩ := hh hc hs
    obtain rfl := Option.some.inj (hg.symm.trans hu.fd)
    refine sysPwrite_bytes (c := (c.sysRead _).2) hu.lt (fun hf => hw ?_) bs _
    exact ⟨hc, hs, hf ▸ hg⟩
  | accepted => exact congrArg (Disk.bytes · f) (addFileToList_disk _ _)
  | listNoMemory => exact congrArg (Disk.bytes · f) (buildListBuffer_disk _)
  | _ => rfl

/-- **A step of a connection that neither writes to a file nor opens it for writing** leaves its
bytes as they are. -/
theorem Step.unwritten (hh : HandleOk c) (hc : c.freed = false) (h : Step c c')
    (hw : ¬ Writes c.toConn f) (hopen : c.client.state = .recvPutSize → f ∉ c'.openings) :
    ¬ Writes c'.toConn f ∧ c'.disk.bytes f = c.disk.bytes f := by
  cases h with
  | quiet h => cases h <;> exact ⟨hw, rfl⟩
  | receive h =>
    cases h with
    | header _ hs => exact ⟨Writes.not_of_state (by simp [storeHeader, hs]), rfl⟩
    | size hs => exact ⟨Writes.not_of_state (by simp [storeSize, hs]), rfl⟩
    | @body bs g hs hlen hr hne hg =>
      obtain ⟨l, gen, hu⟩ := hh hc hs
      obtain rfl := Option.some.inj (hg.symm.trans hu.fd)
      refine ⟨hw, sysPwrite_bytes (c := (c.sysRead _).2) hu.lt (fun hf => hw ?_) bs _⟩
      exact ⟨hc, hs, hf ▸ hg⟩
  | begin h =>
    cases h with
    | put => exact ⟨Writes.not_of_state (by simp [Ctx.setClient]), rfl⟩
    | @upload g hs hlen ho =>
      have hlog : (setState (openUploadFile c).2 .recvPutData).log
          = c.log ++ [.openWrite c.filepath (openUploadFile c).1] := rfl
      have hne : g ≠ f := by
        rintro rfl
        refine hopen hs ?_
        rw [Conn.openings_of_log hlog, ho]
        exact List.mem_append_right _ (List.mem_singleton_self _)
      refine ⟨fun hwr => hne (Option.some.inj (ho.symm.trans hwr.2.2)), ?_⟩
      refine sysOpenWrite_bytes (c := c.setClient _) c.filepath fun hf => hne ?_
      exact Option.some.inj (ho.symm.trans hf)
  | @choose d st msg h =>
    exact ⟨Writes.not_of_state (fillResponse_sending d st msg).ne.2.2.1, h.bytes hh hc hw⟩
  | send h => exact ⟨Writes.not_of_state h.sending.ne.2.2.1, by rw [h.disk]⟩
  | @close k h =>
    exact ⟨fun hwr => (by cases hwr.1), (closeAndCleanup_bytes k).trans (by rw [h.disk])⟩
  | fault hl => exact ⟨Writes.not_of_state fun h => (by cases hl.state.symm.trans h), rfl⟩

end Steps

/-! ### What an action writes -/

/-- What is known of a connection between two steps. -/
structure Sound (c : Ctx) : Prop where
  conn : ConnOk c
  handle : HandleOk c
  opens : OpensOk c

theorem sound_stable : Stable Sound where
  new := fun fd script g => ⟨connOk_stable.new fd script g, handleOk_stable.new fd script g,
    opensOk_stable.new fd script g⟩
  step := fun c c' hc h hstep => ⟨connOk_stable.step c c' hc h.conn hstep,
    handleOk_stable.step c c' hc h.handle hstep, opensOk_stable.step c c' hc h.opens hstep⟩
  close := fun c hc h => ⟨connOk_stable.close c hc h.conn, handleOk_stable.close c hc h.handle,
    opensOk_stable.close c hc h.opens⟩
  globals := fun c g hg hf h => ⟨connOk_stable.globals c g hg hf h.conn,
    handleOk_stable.globals c g hg hf h.handle, opensOk_stable.globals c g hg hf h.opens⟩

theorem Conn.openings_mono {a b : Conn} (h : a.log <+: b.log) {f : Handle}
    (hf : f ∈ a.openings) : f ∈ b.openings := by
  obtain ⟨l, hl⟩ := h
  rw [openings_of_log hl.symm]
  exact List.mem_append_left _ hf

section Actions

variable {f : Handle}

/-- A handler that does not open the file for an upload. -/
theorem Handled.unwritten {c c' : Ctx} (h : Handled c c') (hs : Sound c)
    (hw : ¬ Writes c.toConn f)
    (hopen : c'.client.requestVerb = .put → f ∈ c'.openings → f ∈ c.openings) :
    ¬ Writes c'.toConn f ∧ c'.disk.bytes f = c.disk.bytes f := by
  cases h with
  | closed => exact ⟨fun hwr => (by cases hwr.1), closeAndCleanup_bytes c⟩
  | steps hsteps =>
    have hrun := Chain.between (P := fun x : Ctx => Sound x ∧ ¬ Writes x.toConn f ∧
      x.disk.bytes f = c.disk.bytes f) (fun x y hcx ⟨hx, hxy⟩ hyc ⟨hsx, hwx, hbx⟩ => by
        refine ⟨sound_stable.step x y hx hsx hxy, ?_⟩
        obtain ⟨hwy, hby⟩ := hxy.unwritten hsx.handle hx hwx fun hsize hmem => by
          -- an upload that opens the file in this step
          -- its log stays empty of openings until this step
          have hnil := hsx.opens.first (.inr hsize)
          have hset : x.client.state ≠ .recvHeader := by
            rw [hsize]
            decide
          have hverb : c'.client.requestVerb = .put := by
            have hput := (hsx.conn.upload.size hsize).2.2.1
            have hy := hxy.sameHeader hset
            exact ((Steps.progress hyc).settled (.inr hy.1)).2.verb.trans (hy.2.verb.trans hput)
          have hold := hopen hverb (Conn.openings_mono (Steps.progress hyc).log hmem)
          have hxf := Conn.openings_mono (Steps.progress hcx).log hold
          rw [hnil] at hxf
          cases hxf
        exact ⟨hwy, hby.trans hbx⟩) hsteps ⟨hs, hw, rfl⟩
    exact hrun.2

/-- No connection receives the body of an upload into the file. -/
def Server.Unwritten (s : Server) (f : Handle) : Prop := ∀ conn ∈ s.conns, ¬ Writes conn f

/-- No upload opens the file. -/
def NotReopened (s s' : Server) (f : Handle) : Prop :=
  ∀ (j : ConnId) (o o' : Conn), s.conns[j]? = some o → s'.conns[j]? = some o' →
    o'.client.requestVerb = .put → f ∈ o'.openings → f ∈ o.openings

instance (s s' : Server) (f : Handle) : Decidable (NotReopened s s' f) :=
  decidable_of_iff (∀ j < s.conns.length, ∀ o ∈ s.conns[j]?, ∀ o' ∈ s'.conns[j]?,
      o'.client.requestVerb = .put ∧ f ∈ o'.openings → f ∈ o.openings)
    ⟨fun h j o o' hj hj' hput hf =>
        h j (List.getElem?_eq_some_iff.mp hj).1 o hj o' hj' ⟨hput, hf⟩,
      fun h j _ o hj o' hj' hf => h j o o' hj hj' hf.1 hf.2⟩

theorem Server.act_unwritten {s : Server} (hs : Reachable s) {a : Action}
    (hw : s.Unwritten f) (hopen : NotReopened s (s.act a) f) :
    (s.act a).Unwritten f ∧ (s.act a).disk.bytes f = s.disk.bytes f := by
  have hsound := sound_stable.reachable hs
  have ht := Server.act_turn hs.mapInv a
  generalize s.act a = s' at ht hopen
  have hput : ∀ {j : ConnId} {conn : Conn} {c : Ctx}, s.conns[j]? = some conn →
      conn.freed = false → Handled (s.ctx conn) c → s'.conns = (s.put j c).conns →
      s'.disk = c.disk → s'.Unwritten f ∧ s'.disk.bytes f = s.disk.bytes f := by
    intro j conn c hj hlive hc hconns hdisk
    have hself : s'.conns[j]? = some c.toConn := by rw [hconns, Server.put_conns_self c hj]
    have hmem := List.mem_of_getElem? hj
    obtain ⟨hwc, hbc⟩ := hc.unwritten (hsound conn hmem) (hw conn hmem)
      (hopen j conn c.toConn hj hself)
    refine ⟨fun o ho => ?_, by rw [hdisk]; exact hbc⟩
    rw [hconns] at ho
    rcases List.mem_or_eq_of_mem_set ho with ho | rfl
    · exact hw o ho
    · exact hwc
  cases ht with
  | idle => exact ⟨hw, rfl⟩
  | accept =>
    refine ⟨fun o ho => ?_, rfl⟩
    rcases List.mem_append.mp ho with ho | ho
    · exact hw o ho
    · obtain rfl := List.mem_singleton.mp ho
      exact Writes.not_of_state (by simp [newConn, clientCreate])
  | handle hget hj hlive h => exact hput hj hlive (.steps h) rfl rfl
  | error hev hget hj hlive => exact hput hj hlive .closed rfl rfl
  | noMemory => exact ⟨hw, rfl⟩
  | useAfterFree hev hget hj hlive h => exact hput hj hlive (.steps h) rfl rfl

end Actions

/-! ### What GET opens -/

section Steps

variable {c c' : Ctx} {st : Status} {msg : List Byte}

/-- Files are opened in two states only. -/
theorem Step.openings_of_ne (h : Step c c') (hheader : c.client.state ≠ .recvHeader)
    (hsize : c.client.state ≠ .recvPutSize) : c'.openings = c.openings := by
  cases h with
  | quiet hq =>
    cases hq with
    | read => exact Conn.openings_eq (l := [_]) rfl rfl
    | write => exact Conn.openings_eq rfl rfl
    | pread => rfl
  | receive hr => cases hr <;> exact Conn.openings_eq (l := [_]) rfl rfl
  | begin hb =>
    cases hb with
    | put hl => exact absurd hl.state hheader
    | upload hs => exact absurd hs hsize
  | @choose d st msg hch =>
    have hfill : (fillResponse d st msg).openings = d.openings :=
      Conn.openings_eq (l := [_]) rfl rfl
    exact hfill.trans (hch.openings.resolve_right fun h => hheader h.1)
  | send hs => exact hs.openings
  | close hk => exact (closeAndCleanup_openings _).trans hk.openings
  | fault hl => exact absurd hl.state hheader

/-- The disk, and what is open, where a request line was served and turns out to be a GET. -/
theorem Choose.openRead (h : Choose c c' st msg) (hs : c.client.state = .recvHeader)
    (hopens : c.openings = []) (hget : c'.client.requestVerb = .get) :
    c'.disk = c.disk ∧ ∀ g ∈ c'.openings, c.disk.openRead c'.filepath = some g := by
  have hnone : ∀ {d : Ctx} {l : List Call}, d.log = c.log ++ l → l.filterMap Call.opening = [] →
      ∀ g ∈ d.openings, c.disk.openRead d.filepath = some g := fun hlog hl g hg => by
    rw [Conn.openings_of_log hlog, hopens, hl] at hg
    cases hg
  have hsome : ∀ {d : Ctx} {w : Path} {f : Handle},
      (openDownload (takeLine c (.get w))).1 = some f →
      d.log = (openDownload (takeLine c (.get w))).2.log →
      d.filepath = (takeLine c (.get w)).filepath →
      ∀ g ∈ d.openings, c.disk.openRead d.filepath = some g := by
    intro d w f ho hlog hpath g hg
    have hlog' : d.log = c.log ++ [.read (c.sysRead 1).1,
        .openRead (takeLine c (.get w)).filepath (openDownload (takeLine c (.get w))).1] :=
      hlog.trans (List.append_assoc c.log [_] [_])
    rw [Conn.openings_of_log hlog', hopens, ho] at hg
    obtain rfl := List.mem_singleton.mp hg
    rw [hpath]
    have hopen : (if (takeLine c (.get w)).script.file.1 = .fail then none
        else c.disk.openRead (takeLine c (.get w)).filepath) = some g := ho
    split_ifs at hopen
    exact hopen
  cases h with
  | bad => exact ⟨rfl, hnone (l := [_]) rfl rfl⟩
  | tooLong => exact ⟨rfl, hnone (l := []) (List.append_nil _).symm rfl⟩
  | list => cases hget
  | deleteAbsent => cases hget
  | deleteFailed => cases hget
  | deleted =>
    rw [removeFileFromList_client] at hget
    cases hget
  | @getMissing w hl ho =>
    have hlog : (openDownload (takeLine c (.get w))).2.log = c.log ++ [.read (c.sysRead 1).1,
        .openRead (takeLine c (.get w)).filepath (openDownload (takeLine c (.get w))).1] :=
      List.append_assoc c.log [_] [_]
    exact ⟨rfl, hnone hlog (by rw [ho]; rfl)⟩
  | getFailed hl ho => exact ⟨rfl, hsome ho rfl rfl⟩
  | getOpened hl ho => exact ⟨rfl, hsome ho rfl rfl⟩
  | sizeCut hs' => cases hs.symm.trans hs'
  | openFailed hs' => cases hs.symm.trans hs'
  | bodyCut hs' => cases hs.symm.trans hs'
  | noFile hs' => cases hs.symm.trans hs'
  | bodyFailed hs' => cases hs.symm.trans hs'
  | extraByte hs' => cases hs.symm.trans hs'
  | accepted hs' => cases hs.symm.trans hs'
  | listNoMemory hs' => cases hs.symm.trans hs'

theorem closeAndCleanup_disk_of_get {k : Ctx} (hget : k.client.requestVerb = .get) :
    (closeAndCleanup k).disk = k.disk := by
  rw [closeAndCleanup_disk, if_neg]
  exact fun hu => by cases hu.1.symm.trans hget

/-- The step in which the request line is read. -/
theorem Step.openRead_of_header (h : Step c c') (hs : c.client.state = .recvHeader)
    (hopens : c.openings = []) (hget : c'.toConn.Settled → c'.client.requestVerb = .get) :
    c'.disk = c.disk ∧ ∀ g ∈ c'.openings, c.disk.openRead c'.filepath = some g := by
  have hnone : c'.openings = c.openings →
      ∀ g ∈ c'.openings, c.disk.openRead c'.filepath = some g := fun heq g hg => by
    rw [heq, hopens] at hg
    cases hg
  cases h with
  | quiet hq =>
    cases hq with
    | read => exact ⟨rfl, hnone (Conn.openings_eq (l := [_]) rfl rfl)⟩
    | write => exact ⟨rfl, hnone (Conn.openings_eq rfl rfl)⟩
    | pread => exact ⟨rfl, hnone rfl⟩
  | receive hr =>
    cases hr with
    | header => exact ⟨rfl, hnone (Conn.openings_eq (l := [_]) rfl rfl)⟩
    | size hs' => cases hs.symm.trans hs'
    | body hs' => cases hs.symm.trans hs'
  | begin hb =>
    cases hb with
    | put => cases hget (.inr (by simp [Ctx.setClient]))
    | upload hs' => cases hs.symm.trans hs'
  | @choose d st msg hch =>
    have hfill : (fillResponse d st msg).openings = d.openings :=
      Conn.openings_eq (l := [_]) rfl rfl
    obtain ⟨hdisk, hread⟩ :=
      hch.openRead hs hopens (hget (.inr (fillResponse_sending d st msg).ne.1))
    exact ⟨hdisk, fun g hg => hread g (hfill ▸ hg)⟩
  | send hsend => exact ⟨hsend.disk, hnone hsend.openings⟩
  | @close k hk =>
    have hverb := hget (.inl rfl)
    rw [closeAndCleanup_client] at hverb
    exact ⟨(closeAndCleanup_disk_of_get hverb).trans hk.disk,
      hnone ((closeAndCleanup_openings k).trans hk.openings)⟩
  | fault => exact ⟨rfl, hnone (Conn.openings_eq (l := [_]) rfl rfl)⟩

/-- What the handler that serves a GET opens is what its path denotes, and it leaves the disk as it
is. -/
theorem Handled.openRead (h : Handled c c') (hs : Sound c) (hheader : c.client.state = .recvHeader)
    (hget : c'.client.requestVerb = .get) :
    c'.disk = c.disk ∧ ∀ g ∈ c'.openings, c.disk.openRead c'.filepath = some g := by
  have hnil := hs.opens.first (.inl hheader)
  cases h with
  | closed =>
    rw [closeAndCleanup_client] at hget
    refine ⟨closeAndCleanup_disk_of_get hget, fun g hg => ?_⟩
    rw [closeAndCleanup_openings, hnil] at hg
    cases hg
  | steps hsteps =>
    have hrun := Chain.between (P := fun x : Ctx => Sound x ∧ x.disk = c.disk ∧
      ∀ g ∈ x.openings, c.disk.openRead x.filepath = some g)
      (fun x y _ hxy hyc hall => by
        obtain ⟨hx, hxy⟩ := hxy
        obtain ⟨hsx, hdisk, hread⟩ := hall
        refine ⟨sound_stable.step x y hx hsx hxy, ?_⟩
        have hverb : y.toConn.Settled → y.client.requestVerb = .get := fun hset =>
          ((Steps.progress hyc).settled hset).2.verb.symm.trans hget
        by_cases hst : x.client.state = .recvHeader
        · rw [← hdisk]
          exact hxy.openRead_of_header hst (hsx.opens.first (.inl hst)) hverb
        · obtain ⟨hst', hsame⟩ := hxy.sameHeader hst
          have hxget : x.client.requestVerb = .get := hsame.verb.symm.trans (hverb (.inr hst'))
          have hsize : x.client.state ≠ .recvPutSize := fun hsz => by
            cases hxget.symm.trans (hsx.conn.upload.size hsz).2.2.1
          have hsend : x.client.state.Sending := by
            rcases x.client.state.cases with hr | hr | hr
            · rcases hr with hr | hr | hr
              · exact absurd hr hst
              · exact absurd hr hsize
              · cases hxget.symm.trans (hsx.conn.upload.data hr).2.2.1
            · exact hr
            · cases hx.symm.trans (hsx.conn.done hr)
          refine ⟨(hxy.disk_of_sending hsend (by rw [hxget]; decide)).trans hdisk, ?_⟩
          rw [hxy.openings_of_ne hst hsize, hxy.filepath hst]
          exact hread) hsteps
      ⟨hs, rfl, fun g hg => by rw [hnil] at hg; cases hg⟩
    exact hrun.2

end Steps

/-! ### The file of a download -/

section Steps

variable {c c' : Ctx} {f : Handle} {n : Nat} {bs : List Byte}

/-- A handler of a download sends the next bytes of the file and does not touch it. -/
theorem FileSent.handled (h : FileSent c.toConn f n bs) (hc : c.freed = false) (hok : ConnOk c)
    (hb : c.disk.bytes f = bs) (hlen : bs.length ≤ n) (hhand : Handled c c') :
    FileSent c'.toConn f n bs := by
  have hrun := hhand.invariant (P := fun x => ConnOk x ∧ FileSent x.toConn f n bs ∧
    x.disk.bytes f = bs) hc ⟨hok, h, hb⟩ ?_ ?_
  · exact hrun.2.1
  · rintro x y hx ⟨hokx, hfx, hbx⟩ hxy
    have hs := hfx.sending fun hs => by cases hx.symm.trans (hokx.done hs)
    refine ⟨connOk_stable.step x y hx hokx hxy, hfx.step hokx.reply hx hbx hlen hxy, ?_⟩
    rw [hxy.disk_of_sending hs (by rw [hfx.accepts.1]; decide)]
    exact hbx
  · rintro x hx ⟨hokx, hfx, hbx⟩
    exact ⟨connOk_stable.close x hx hokx, hfx.closeAndCleanup, (closeAndCleanup_bytes x).trans hbx⟩

end Steps

theorem Conn.mem_openings_of_download {c : Conn} {f : Handle} (h : c.download = some f) :
    f ∈ c.openings := by
  obtain ⟨x, hx, hf⟩ := List.exists_of_findSome?_eq_some h
  refine List.mem_filterMap.mpr ⟨x, hx, ?_⟩
  cases x with
  | openRead p g => exact hf
  | _ => cases hf

theorem newConn_not_settled (fd : Int) (script : Script) : ¬ (newConn fd script).Settled :=
  fun h => h.elim (fun hf => by cases hf) fun hs => hs rfl

theorem FileSent.state_ne {c : Conn} {f : Handle} {n : Nat} {bs : List Byte}
    (h : FileSent c f n bs) : c.client.state ≠ .recvHeader := fun hs => by
  rcases h.state with h' | h' | h' | h' <;> cases hs.symm.trans h'

/-- A connection with a reply was not accepted a moment ago. -/
theorem Accepts.ne_newConn {c : Conn} {v : Verb} (h : Accepts c v) {fd : Int} {script : Script} :
    c ≠ newConn fd script := by
  rintro rfl
  obtain ⟨-, msg, hmsg⟩ := h
  cases hmsg

/-! ### Downloads -/

/-- The bytes are the body of an upload of the entry that was accepted. -/
def Uploaded (s : Server) (l : Loc) (body : List Byte) : Prop :=
  ∃ u ∈ s.conns, u.accepted = true ∧ s.target u = .entry l ∧ ReceivedBody u body

/-- The action `a` opens the entry for the GET of connection `i`: the name is listed, its file holds
`body`, and no upload of it is under way. -/
structure Begins (s : Server) (a : Action) (i : ConnId) (l : Loc) (body : List Byte) : Prop where
  waiting : ∃ conn, s.conns[i]? = some conn ∧ conn.client.state = .recvHeader
  begun : ∃ conn, (s.act a).conns[i]? = some conn ∧ Accepts conn .get ∧
    (s.act a).target conn = .entry l ∧ Found s.toGlobals conn.client.filename
  stored : s.disk.lookup l = some body
  uploaded : Uploaded s l body
  idle : ∀ u ∈ s.conns, u.freed = false → u.client.state = .recvPutData → s.target u ≠ .entry l

/-- No upload opens a file that connection `i` has open for GET. -/
def NeverReopened (s : Server) (acts : List Action) (i : ConnId) : Prop :=
  ∀ pre a post, acts = pre ++ a :: post → ∀ conn f, (s.run pre).conns[i]? = some conn →
    conn.freed = false → conn.download = some f → NotReopened (s.run pre) (s.run (pre ++ [a])) f

theorem neverReopened_iff {s : Server} {acts : List Action} {i : ConnId} :
    NeverReopened s acts i ↔
      ∀ k < acts.length, ∀ conn ∈ (s.run (acts.take k)).conns[i]?, conn.freed = false →
        ∀ f ∈ conn.download, NotReopened (s.run (acts.take k)) (s.run (acts.take (k + 1))) f := by
  refine Chain.forall_step_iff (P := fun pre pre' => ∀ conn f, (s.run pre).conns[i]? = some conn →
    conn.freed = false → conn.download = some f →
      NotReopened (s.run pre) (s.run pre') f) |>.trans ?_
  exact forall₂_congr fun k _ => ⟨fun h conn hi hlive f hf => h conn f hi hlive hf,
    fun h conn f hi hlive hf => h conn hi hlive f hf⟩

instance (s : Server) (acts : List Action) (i : ConnId) : Decidable (NeverReopened s acts i) :=
  decidable_of_iff _ neverReopened_iff.symm

/-- While connection `i` sends the file `f`, it holds `bs` and nobody writes to it. -/
def Sending (s : Server) (i : ConnId) (f : Handle) (bs : List Byte) : Prop :=
  ∃ conn, s.conns[i]? = some conn ∧ FileSent conn f bs.length bs ∧
    (conn.freed = false → s.disk.bytes f = bs ∧ s.Unwritten f)

section Runs

variable {s : Server} {a : Action} {i : ConnId} {l : Loc} {body : List Byte}

/-- An action changes one connection at most. -/
theorem Server.act_conns_of_ne (h : MapInv s) {conn : Conn} (hi : (s.act a).conns[i]? = some conn)
    (hold : s.conns[i]? ≠ some conn) (hlt : i < s.conns.length) {j : ConnId} (hji : j ≠ i) :
    (s.act a).conns[j]? = s.conns[j]? := by
  have ht := Server.act_turn h a
  generalize s.act a = s' at ht hi
  have hput : ∀ {k : ConnId} {c : Ctx}, s'.conns = (s.put k c).conns →
      s'.conns[j]? = s.conns[j]? := fun {k c} hconns => by
    have hik : i = k := by
      by_contra hne
      exact hold (by rw [← put_conns_of_ne c hne, ← hconns, hi])
    rw [hconns, put_conns_of_ne c (hik ▸ hji)]
  cases ht with
  | idle => exact absurd hi hold
  | accept => exact absurd ((List.getElem?_append_left hlt).symm.trans hi) hold
  | handle => exact hput rfl
  | error => exact hput rfl
  | noMemory => exact absurd hi hold
  | useAfterFree => exact hput rfl

/-- Once a GET sends its file, nobody writes to it unless an upload opens it again. -/
theorem Sending.run (hs : Reachable s) {f : Handle} (h : Sending s i f body) (acts : List Action)
    (hopen : NeverReopened s acts i) : Sending (s.run acts) i f body := by
  refine Chain.run_between (I := fun t => Sending t i f body) s acts
    (fun pre b post heq ⟨conn, hi, hsent, hfile⟩ => ?_) h
  have hreach := hs.run pre
  have hsound := sound_stable.reachable hreach
  change Sending ((s.run pre).act b) i f body
  change (s.run pre).conns[i]? = some conn at hi
  change conn.freed = false → (s.run pre).disk.bytes f = body ∧ (s.run pre).Unwritten f at hfile
  obtain ⟨conn', hi', hp⟩ :=
    (Server.turn_le (Server.act_turn hreach.mapInv b)).conns i conn hi
  -- nobody writes to the file in this action, and nobody opens it for writing
  have hkeep : conn.freed = false →
      ((s.run pre).act b).disk.bytes f = body ∧ ((s.run pre).act b).Unwritten f := fun hlive => by
    obtain ⟨hbytes, hun⟩ := hfile hlive
    have hnot := hopen pre b post heq conn f hi hlive hsent.download
    rw [Server.run_concat] at hnot
    obtain ⟨hun', hbytes'⟩ := Server.act_unwritten hreach hun hnot
    exact ⟨hbytes'.trans hbytes, hun'⟩
  cases Server.act_beside hreach.mapInv (fun o ho => (hsound o ho).handle) b hi' with
  | @own conn₀ c hi₀ hlive hhand hconn =>
    obtain rfl := Option.some.inj (hi.symm.trans hi₀)
    subst hconn
    have hok := (hsound conn (List.mem_of_getElem? hi)).conn
    exact ⟨c.toConn, hi', hsent.handled (c := (s.run pre).ctx conn) hlive hok (hfile hlive).1
      (Nat.le_refl _) hhand, fun _ => hkeep hlive⟩
  | other hi₀ =>
    rcases hi₀ with hi₀ | ⟨fd, script, rfl⟩
    · obtain rfl := Option.some.inj (hi.symm.trans hi₀)
      exact ⟨conn, hi', hsent, hkeep⟩
    · exact absurd (hp.settled (.inr hsent.state_ne)).1 (newConn_not_settled fd script)

/-- The moment at which a GET opens its file. -/
theorem Begins.sending (hs : Reachable s) (h : Begins s a i l body) :
    ∃ f, Sending (s.act a) i f body := by
  obtain ⟨conn₀, hi₀, hheader⟩ := h.waiting
  obtain ⟨conn, hi, hacc, htarget, -⟩ := h.begun
  have hsound := sound_stable.reachable hs
  have hs₀ := hsound conn₀ (List.mem_of_getElem? hi₀)
  have hsilent : conn₀.replies = [] := (hs₀.conn.reply.silent (.inl hheader)).2
  -- the OK is new, so it is connection `i` that ran
  have hne : s.conns[i]? ≠ some conn := fun heq => by
    obtain rfl := Option.some.inj (hi₀.symm.trans heq)
    obtain ⟨-, msg, hmsg⟩ := hacc
    cases hsilent.symm.trans hmsg
  cases Server.act_beside hs.mapInv (fun o ho => (hsound o ho).handle) a hi with
  | other hi' =>
    rcases hi' with hi' | ⟨fd, script, hnew⟩
    · exact absurd hi' hne
    · exact absurd hnew hacc.ne_newConn
  | @own conn₁ c hi₁ hlive hhand hconn hdisk =>
    obtain rfl := Option.some.inj (hi₀.symm.trans hi₁)
    subst hconn
    obtain ⟨f, hsent⟩ := hhand.fileSent hlive hs₀.conn
      (fun ⟨_, msg, hmsg⟩ => by cases hsilent.symm.trans hmsg) hacc
    obtain ⟨hcdisk, hread⟩ := hhand.openRead hs₀ hheader hacc.1
    change c.disk = s.disk at hcdisk
    have hopen := hread f (Conn.mem_openings_of_download hsent.download)
    have hpath : c.filepath = (s.ctx c.toConn).filepath := by
      rw [Ctx.filepath, hcdisk]
      rfl
    have htree : (s.act a).disk.tree = s.disk.tree := by rw [hdisk, hcdisk]
    have hres : s.disk.tree.resolve c.filepath = .entry l := by
      rw [hpath, ← htarget, Server.target, htree]
      change _ = s.disk.tree.resolve (snprintf 1024
        ((s.act a).disk.tree.tempName ++ [slash] ++ c.client.filename))
      rw [htree]
      rfl
    -- what was opened is the file that the entry links to
    obtain ⟨gen, hlink, hbody⟩ := (Disk.lookup_eq_some _).mp h.stored
    obtain rfl : f = .file l gen := by
      change s.disk.openRead c.filepath = some f at hopen
      rw [Disk.openRead, hres] at hopen
      change (s.disk.slot l).link.map (Handle.file l) = some f at hopen
      rw [hlink] at hopen
      exact (Option.some.inj hopen).symm
    rw [hcdisk] at hsent
    have hbytes : s.disk.bytes (.file l gen) = body := hbody
    -- an upload that writes to it would have opened the same entry
    have hidle : s.Unwritten (.file l gen) := by
      rintro u hu ⟨hlive, hstate, hfd⟩
      obtain ⟨l', gen', hup⟩ := (hsound u hu).handle hlive hstate
      obtain ⟨rfl, rfl⟩ := Handle.file.inj (Option.some.inj (hup.fd.symm.trans hfd))
      exact h.idle u hu hlive hstate hup.target
    have hnot : NotReopened s (s.act a) (.file l gen) := by
      intro j o o' hj hj' hput hmem
      by_cases hji : j = i
      · subst hji
        obtain rfl := Option.some.inj (hi.symm.trans hj')
        cases hput.symm.trans hacc.1
      · rw [Server.act_conns_of_ne hs.mapInv hi hne (List.getElem?_eq_some_iff.mp hi₀).1 hji] at hj'
        obtain rfl := Option.some.inj (hj.symm.trans hj')
        exact hmem
    obtain ⟨hun, hkeep⟩ := Server.act_unwritten hs hidle hnot
    refine ⟨.file l gen, c.toConn, hi, ?_, fun _ => ⟨hkeep.trans hbytes, hun⟩⟩
    have hsize : s.disk.size (.file l gen) = body.length := congrArg List.length hbytes
    change FileSent c.toConn (.file l gen) (s.disk.size (.file l gen))
      (s.disk.bytes (.file l gen)) at hsent
    rwa [hsize, hbytes] at hsent

/-- **A download is a snapshot** as long as no upload opens its file again: a GET that ends in
`STATE_DONE` has sent the size and the body of one accepted upload. -/
theorem download_snapshot (hs : Reachable s) (h : Begins s a i l body) {acts : List Action}
    (hopen : NeverReopened (s.act a) acts i) {conn : Conn}
    (hi : ((s.act a).run acts).conns[i]? = some conn) (hdone : conn.client.state = .done) :
    conn.sent = okLine ++ (sizeBytes body.length ++ body) := by
  obtain ⟨f, hsend⟩ := h.sending hs
  obtain ⟨conn', hi', hsent, -⟩ := hsend.run (hs.run [a]) acts hopen
  obtain rfl := Option.some.inj (hi.symm.trans hi')
  exact hsent.done hdone

/-- A client gets `x`, which holds `hi`, and has received the `h` when the actions `between` and a
second upload of `x` take place. -/
def getBesideUpload (between : List Action) : List Action :=
  [.event 6 .onWrite, .event 6 .onWrite] ++ between ++
    [.accept 8 ⟨pushBack (ascii "PUT x\n" ++ sizeBytes 2 ++ ascii "no") [], [.room 3], [], []⟩,
      .event 8 .onRead, .event 8 .onRead, .event 6 .onWrite, .event 6 .onWrite]

/-- The client has connected. -/
def beforeGet : Server := (Server.boot bareDisk).run
  [.accept 5 ⟨pushBack (ascii "PUT x\n" ++ sizeBytes 2 ++ ascii "hi") [], [.room 3], [], []⟩,
    .event 5 .onRead, .event 5 .onRead,
    .accept 6 ⟨pushBack (ascii "GET x\n") [], [.room 3, .room 8, .room 1, .room 1], [], []⟩]

theorem beforeGet_reachable : Reachable beforeGet := ⟨bareDisk, _, bareDisk_fresh, rfl⟩

theorem beforeGet_begins : Begins beforeGet (.event 6 .onRead) 1 (1, ascii "x") (ascii "hi") where
  waiting := by
    obtain ⟨conn, hi, hs⟩ : ∃ conn ∈ beforeGet.conns[1]?, conn.client.state = .recvHeader := by
      decide +kernel
    exact ⟨conn, hi, hs⟩
  begun := by
    obtain ⟨conn, hi, hverb, hmsg, htarget, hfound⟩ :
        ∃ conn ∈ (beforeGet.act (.event 6 .onRead)).conns[1]?, conn.client.requestVerb = .get ∧
          conn.replies = [(.ok, [])] ∧
          (beforeGet.act (.event 6 .onRead)).target conn = .entry (1, ascii "x") ∧
          searchName conn.client.filename 0 beforeGet.serverFiles.contents = .found 0 := by
      decide +kernel
    exact ⟨conn, hi, ⟨hverb, _, hmsg⟩, htarget, 0, hfound⟩
  stored := by decide +kernel
  uploaded := by
    unfold Uploaded ReceivedBody
    decide +kernel
  idle := by decide +kernel

/-- The file is deleted before it is uploaded again, and the download goes on. -/
theorem download_snapshot_deleted : ∃ conn ∈ ((beforeGet.act (.event 6 .onRead)).run
      (getBesideUpload [.accept 7 ⟨pushBack (ascii "DELETE x\n") [], [.room 3], [], []⟩,
        .event 7 .onRead])).conns[1]?,
    conn.sent = okLine ++ (sizeBytes 2 ++ ascii "hi") := by
  obtain ⟨conn, hi, hdone⟩ : ∃ conn ∈ ((beforeGet.act (.event 6 .onRead)).run
      (getBesideUpload [.accept 7 ⟨pushBack (ascii "DELETE x\n") [], [.room 3], [], []⟩,
        .event 7 .onRead])).conns[1]?, conn.client.state = .done := by decide +kernel
  exact ⟨conn, hi, download_snapshot beforeGet_reachable beforeGet_begins
    (by decide +kernel) hi hdone⟩

/-- Without the deletion the second upload truncates the file, and `h` is followed by its `o`. -/
theorem not_download_snapshot_reupload : ¬ ∀ s, Reachable s → ∀ a i l body,
    Begins s a i l body → ∀ acts conn, ((s.act a).run acts).conns[i]? = some conn →
    (∀ j o, j ≠ i → ((s.act a).run acts).conns[j]? = some o →
      (o.client.requestVerb = .put ∨ o.client.requestVerb = .delete) ∧
        ((s.act a).run acts).target o = .entry l) →
    conn.client.state = .done →
      ∃ whole, Uploaded ((s.act a).run acts) l whole ∧
        conn.sent = okLine ++ (sizeBytes whole.length ++ whole) := by
  intro h
  obtain ⟨conn, hi, hdone, hsent⟩ :
      ∃ conn ∈ ((beforeGet.act (.event 6 .onRead)).run (getBesideUpload [])).conns[1]?,
        conn.client.state = .done ∧ conn.sent = okLine ++ (sizeBytes 2 ++ ascii "ho") := by
    decide +kernel
  have hothers : ∀ j < ((beforeGet.act (.event 6 .onRead)).run (getBesideUpload [])).conns.length,
      ∀ o ∈ ((beforeGet.act (.event 6 .onRead)).run (getBesideUpload [])).conns[j]?, j ≠ 1 →
        (o.client.requestVerb = .put ∨ o.client.requestVerb = .delete) ∧
          ((beforeGet.act (.event 6 .onRead)).run (getBesideUpload [])).target o
            = .entry (1, ascii "x") := by decide +kernel
  obtain ⟨whole, ⟨u, hu, hacc, -, hbody⟩, heq⟩ := h beforeGet beforeGet_reachable _ 1 _ _
    beforeGet_begins (getBesideUpload []) conn hi
    (fun j o hji ho => hothers j (List.getElem?_eq_some_iff.mp ho).1 o ho hji) hdone
  have hwhole : whole = ascii "ho" := by
    have h := List.append_cancel_left (hsent.symm.trans heq)
    have hlen : (sizeBytes 2).length = (sizeBytes whole.length).length := by simp
    exact (List.append_inj h hlen).2.symm
  have hno : ∀ u ∈ ((beforeGet.act (.event 6 .onRead)).run (getBesideUpload [])).conns,
      u.accepted = true → u.received ≠ u.client.headerBuf ++ sizeBytes u.client.expectedSize
        ++ ascii "ho" := by decide +kernel
  exact hno u hu hacc (hwhole ▸ hbody)

end Runs

end FileServer
