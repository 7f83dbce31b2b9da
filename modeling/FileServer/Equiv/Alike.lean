/-
  Two contexts of one connection that agree on one name.

  A connection whose request names `w` reaches the disk through the entry of `w`, and
  the list of names through searches for `w`.  `Alike` says that two contexts have
  the same record, script and log and agree on that entry and on whether `w` is listed;
  about the other names it says that the first context has what it had (`others`).
  Every system call, every assignment to the record and both operations on the list
  keep it.

  Slots and handles belong to one location, so the record is literally the same in both
  contexts, open files included.
-/
import FileServer.FailedUpload
import FileServer.Exhaustion

namespace FileServer

open Ctx

/-! ### File systems that agree on one entry -/

namespace Disk

variable {k k' : Disk} {p : Path} {l : Loc}

theorem openWrite_congr (ht : k'.tree = k.tree) (hp : k.tree.resolve p = .entry l)
    (hs : k'.slot l = k.slot l) : (k'.openWrite p).1 = (k.openWrite p).1 ∧
      (k'.openWrite p).2.slot l = (k.openWrite p).2.slot l := by
  unfold openWrite
  rw [ht, hp]
  dsimp only
  rw [hs]
  cases (k.slot l).link with
  | none => simp
  | some gen => simp [setContent, hs]

theorem openRead_congr (ht : k'.tree = k.tree) (hp : k.tree.resolve p = .entry l)
    (hs : k'.slot l = k.slot l) : k'.openRead p = k.openRead p := by
  unfold openRead
  rw [ht, hp]
  dsimp only
  rw [hs]

theorem unlink_congr (ht : k'.tree = k.tree) (hp : k.tree.resolve p = .entry l)
    (hs : k'.slot l = k.slot l) : (k'.unlink p).1 = (k.unlink p).1 ∧
      (k'.unlink p).2.slot l = (k.unlink p).2.slot l := by
  unfold unlink
  rw [ht, hp]
  dsimp only
  rw [hs]
  cases (k.slot l).link with
  | none => simp [hs]
  | some gen => simp

theorem pwrite_congr (hs : k'.slot l = k.slot l) (gen : Nat) (bs : List Byte) (off : Nat) :
    (k'.pwrite (.file l gen) bs off).slot l = (k.pwrite (.file l gen) bs off).slot l := by
  simp [pwrite, setContent, content, hs]

end Disk

/-! ### Contexts that agree on one name -/

/-- A state in which an upload is received. -/
def ConnState.Uploads (st : ConnState) : Prop := st = .recvPutSize ∨ st = .recvPutData

instance : DecidablePred ConnState.Uploads := fun _ => inferInstanceAs (Decidable (_ ∨ _))

/-- The connection works on the entry `l` of the name `w` only; `n` is the name in its record. -/
structure Own (w n : Path) (l : Loc) (u : Conn) : Prop where
  mem : u.script.mem = []
  handle : ∀ h, u.client.fileFd = some h → ∃ gen, h = .file l gen
  verb : u.client.requestVerb ≠ .list
  name : u.client.filename = n
  named : n = w ∨ n = [] ∧ u.client.requestVerb = .get ∧ ¬ u.client.state.Uploads

theorem Own.congr {w n : Path} {l : Loc} {u v : Conn} (h : Own w n l u)
    (hmem : v.script.mem = u.script.mem)
    (hfd : ∀ h, v.client.fileFd = some h → u.client.fileFd = some h)
    (hverb : v.client.requestVerb = u.client.requestVerb)
    (hname : v.client.filename = u.client.filename)
    (hstate : v.client.state.Uploads → u.client.state.Uploads) : Own w n l v where
  mem := hmem.trans h.mem
  handle x hx := h.handle x (hfd x hx)
  verb := hverb ▸ h.verb
  name := hname.trans h.name
  named := by
    rw [hverb]
    exact h.named.imp_right fun ⟨hnil, hget, hno⟩ => ⟨hnil, hget, fun hs => hno (hstate hs)⟩

/-- Two contexts of one connection that agree on the entry and on the listing of its name; `o` is
what the first has of the other names. -/
structure Alike (t : Tree) (w n : Path) (o : Path → Slot × Nat) (c d : Ctx) : Prop where
  conn : c.toConn = d.toConn
  own : Own w n (t.temp, w) c.toConn
  tree : c.disk.tree = t ∧ d.disk.tree = t
  slot : c.disk.slot (t.temp, w) = d.disk.slot (t.temp, w)
  listed : c.serverFiles.contents.count (some w) = d.serverFiles.contents.count (some w)
  names : none ∉ c.serverFiles.contents ∧ none ∉ d.serverFiles.contents
  others : ∀ v, v ≠ w →
    (c.disk.slot (t.temp, v), c.serverFiles.contents.count (some v)) = o v

namespace Alike

variable {t : Tree} {w n : Path} {o : Path → Slot × Nat} {c d c' d' : Ctx}

/-- What does not touch the globals. -/
theorem local_ {n' : Path} (h : Alike t w n o c d) (hconn : c'.toConn = d'.toConn)
    (hown : Own w n' (t.temp, w) c'.toConn) (hc : c'.toGlobals = c.toGlobals)
    (hd : d'.toGlobals = d.toGlobals) : Alike t w n' o c' d' := by
  obtain ⟨u, G⟩ := c
  obtain ⟨v, H⟩ := d
  obtain ⟨u', G'⟩ := c'
  obtain ⟨v', H'⟩ := d'
  obtain rfl : G' = G := hc
  obtain rfl : H' = H := hd
  exact ⟨hconn, hown, h.tree, h.slot, h.listed, h.names, h.others⟩

theorem client (h : Alike t w n o c d) : d.client = c.client := congrArg Conn.client h.conn.symm

theorem script (h : Alike t w n o c d) : d.script = c.script := congrArg Conn.script h.conn.symm

theorem filepath (h : Alike t w n o c d) : d.filepath = c.filepath := by
  rw [Ctx.filepath, Ctx.filepath, h.client, h.tree.1, h.tree.2]

theorem setClient (h : Alike t w n o c d) {f : Client → Client}
    (hown : Own w n (t.temp, w) (c.setClient f).toConn) :
    Alike t w n o (c.setClient f) (d.setClient f) := by
  refine h.local_ ?_ hown rfl rfl
  obtain ⟨u, G⟩ := c
  obtain ⟨v, H⟩ := d
  obtain rfl : u = v := h.conn
  rfl

theorem note (h : Alike t w n o c d) (x : Call) : Alike t w n o (c.note x) (d.note x) := by
  obtain ⟨u, G⟩ := c
  obtain ⟨v, H⟩ := d
  obtain rfl : u = v := h.conn
  exact h.local_ rfl (h.own.congr rfl (fun _ hx => hx) rfl rfl id) rfl rfl

theorem modifyEventLoop (h : Alike t w n o c d) (x : Interest) :
    Alike t w n o (c.modifyEventLoop x) (d.modifyEventLoop x) := by
  obtain ⟨u, G⟩ := c
  obtain ⟨v, H⟩ := d
  obtain rfl : u = v := h.conn
  exact h.local_ rfl (h.own.congr rfl (fun _ hx => hx) rfl rfl id) rfl rfl

theorem closeFile (h : Alike t w n o c d) : Alike t w n o c.closeFile d.closeFile :=
  h.setClient (h.own.congr rfl (fun _ hx => by cases hx) rfl rfl id)

theorem sysRead (h : Alike t w n o c d) (count : Nat) :
    (d.sysRead count).1 = (c.sysRead count).1 ∧
      Alike t w n o (c.sysRead count).2 (d.sysRead count).2 := by
  obtain ⟨u, G⟩ := c
  obtain ⟨v, H⟩ := d
  obtain rfl : u = v := h.conn
  exact ⟨rfl, h.local_ rfl (h.own.congr (Script.read_mem ..) (fun _ hx => hx) rfl rfl id) rfl rfl⟩

theorem sysWrite (h : Alike t w n o c d) (bs : List Byte) :
    (d.sysWrite bs).1 = (c.sysWrite bs).1 ∧ Alike t w n o (c.sysWrite bs).2 (d.sysWrite bs).2 := by
  obtain ⟨u, G⟩ := c
  obtain ⟨v, H⟩ := d
  obtain rfl : u = v := h.conn
  exact ⟨rfl, h.local_ rfl (h.own.congr (Script.write_mem ..) (fun _ hx => hx) rfl rfl id) rfl rfl⟩

theorem sysFstat (h : Alike t w n o c d) (gen : Nat) :
    (d.sysFstat (.file (t.temp, w) gen)).1 = (c.sysFstat (.file (t.temp, w) gen)).1 ∧
      Alike t w n o (c.sysFstat (.file (t.temp, w) gen)).2
        (d.sysFstat (.file (t.temp, w) gen)).2 := by
  have hsize : d.disk.size (.file (t.temp, w) gen) = c.disk.size (.file (t.temp, w) gen) :=
    congrArg List.length (Disk.content_congr h.slot.symm gen)
  obtain ⟨u, G⟩ := c
  obtain ⟨v, H⟩ := d
  obtain rfl : u = v := h.conn
  refine ⟨?_, h.local_ rfl (h.own.congr (Script.file_mem ..) (fun _ hx => hx) rfl rfl id) rfl rfl⟩
  unfold Ctx.sysFstat
  rw [hsize]

theorem sysPread (h : Alike t w n o c d) (gen count off : Nat) :
    (d.sysPread (.file (t.temp, w) gen) count off).1
        = (c.sysPread (.file (t.temp, w) gen) count off).1 ∧
      Alike t w n o (c.sysPread (.file (t.temp, w) gen) count off).2
        (d.sysPread (.file (t.temp, w) gen) count off).2 := by
  have hread : ∀ count, d.disk.pread (.file (t.temp, w) gen) count off
      = c.disk.pread (.file (t.temp, w) gen) count off := fun count => by
    rw [Disk.pread, Disk.pread, Disk.content_congr h.slot.symm gen]
  obtain ⟨u, G⟩ := c
  obtain ⟨v, H⟩ := d
  obtain rfl : u = v := h.conn
  refine ⟨?_, h.local_ rfl (h.own.congr (Script.file_mem ..) (fun _ hx => hx) rfl rfl id) rfl rfl⟩
  unfold Ctx.sysPread
  dsimp only
  cases u.script.file.1 with
  | ok => exact hread count
  | short m => exact hread (min m count)
  | fail => rfl

/-- Both file systems change at the entry only, and in the same way. -/
theorem onDisk (h : Alike t w n o c d) (hconn : c'.toConn = d'.toConn)
    (hown : Own w n (t.temp, w) c'.toConn) (hfiles : c'.serverFiles = c.serverFiles)
    (hfiles' : d'.serverFiles = d.serverFiles) (htree : c'.disk.tree = c.disk.tree)
    (htree' : d'.disk.tree = d.disk.tree)
    (hslot : d'.disk.slot (t.temp, w) = c'.disk.slot (t.temp, w))
    (hothers : ∀ l, l ≠ (t.temp, w) → c'.disk.slot l = c.disk.slot l) :
    Alike t w n o c' d' where
  conn := hconn
  own := hown
  tree := ⟨htree.trans h.tree.1, htree'.trans h.tree.2⟩
  slot := hslot.symm
  listed := by
    rw [hfiles, hfiles']
    exact h.listed
  names := by
    rw [hfiles, hfiles']
    exact h.names
  others v hv := by
    rw [hfiles, hothers _ fun heq => hv (congrArg Prod.snd heq)]
    exact h.others v hv

theorem sysPwrite (h : Alike t w n o c d) (gen : Nat) (bs : List Byte) (off : Nat) :
    (d.sysPwrite (.file (t.temp, w) gen) bs off).1
        = (c.sysPwrite (.file (t.temp, w) gen) bs off).1 ∧
      Alike t w n o (c.sysPwrite (.file (t.temp, w) gen) bs off).2
        (d.sysPwrite (.file (t.temp, w) gen) bs off).2 := by
  have hown : Own w n (t.temp, w) (c.sysPwrite (.file (t.temp, w) gen) bs off).2.toConn :=
    h.own.congr (Script.file_mem ..) (fun _ hx => hx) rfl rfl id
  have hothers : ∀ l, l ≠ (t.temp, w) →
      (c.sysPwrite (.file (t.temp, w) gen) bs off).2.disk.slot l = c.disk.slot l := fun l hl =>
    c.sysPwrite_slot_of_ne bs off gen hl
  have hwrite := fun bs => Disk.pwrite_congr h.slot.symm gen bs off
  obtain ⟨u, G⟩ := c
  obtain ⟨v, H⟩ := d
  obtain rfl : u = v := h.conn
  have hfst : ((Ctx.mk u H).sysPwrite (.file (t.temp, w) gen) bs off).1
      = ((Ctx.mk u G).sysPwrite (.file (t.temp, w) gen) bs off).1 := by
    unfold Ctx.sysPwrite
    dsimp only
    cases u.script.file.1 <;> rfl
  refine ⟨hfst, h.onDisk rfl hown rfl rfl ?_ ?_ ?_ hothers⟩
  · unfold Ctx.sysPwrite
    dsimp only
    cases u.script.file.1 <;> rfl
  · unfold Ctx.sysPwrite
    dsimp only
    cases u.script.file.1 <;> rfl
  · unfold Ctx.sysPwrite
    dsimp only
    cases u.script.file.1 with
    | ok => exact hwrite bs
    | short m => exact hwrite (bs.take m)
    | fail => exact h.slot.symm

section Paths

variable {p : Path}

theorem sysOpenWrite (h : Alike t w n o c d) (hp : t.resolve p = .entry (t.temp, w)) :
    (d.sysOpenWrite p).1 = (c.sysOpenWrite p).1 ∧
      (∀ x, (c.sysOpenWrite p).1 = some x → ∃ gen, x = .file (t.temp, w) gen) ∧
      Alike t w n o (c.sysOpenWrite p).2 (d.sysOpenWrite p).2 := by
  have hp' : c.disk.tree.resolve p = .entry (t.temp, w) := h.tree.1 ▸ hp
  obtain ⟨hfst, hslot⟩ := Disk.openWrite_congr (h.tree.2.trans h.tree.1.symm) hp' h.slot.symm
  obtain ⟨gen, hopen, -⟩ := c.disk.openWrite_entry hp'
  have hothers : ∀ l, l ≠ (t.temp, w) → (c.sysOpenWrite p).2.disk.slot l = c.disk.slot l :=
    fun l hl => c.sysOpenWrite_slot_of_ne p fun hr => hl (Target.entry.inj (hr.symm.trans hp'))
  obtain ⟨u, G⟩ := c
  obtain ⟨v, H⟩ := d
  obtain rfl : u = v := h.conn
  have hown : ∀ x, Own w n (t.temp, w)
      ({ u with script := u.script.file.2, log := u.log ++ [x] }) := fun x =>
     h.own.congr (Script.file_mem ..) (fun _ hx => hx) rfl rfl id
  by_cases hf : u.script.file.1 = .fail
  · have hnone : ∀ K, (Ctx.mk u K).sysOpenWrite p = (none, ({ Ctx.mk u K with
        script := u.script.file.2 }.note (.openWrite p none))) := fun K => by
      unfold Ctx.sysOpenWrite
      dsimp only
      rw [if_pos hf]
    rw [hnone, hnone]
    exact ⟨rfl, (fun _ hx => by cases hx), h.local_ rfl (hown _) rfl rfl⟩
  · have hsome : ∀ K, (Ctx.mk u K).sysOpenWrite p = ((K.disk.openWrite p).1, ({ Ctx.mk u K with
        script := u.script.file.2
        disk := (K.disk.openWrite p).2 }.note (.openWrite p (K.disk.openWrite p).1))) :=
      fun K => by
        unfold Ctx.sysOpenWrite
        dsimp only
        rw [if_neg hf]
    rw [hsome] at hothers
    rw [hsome, hsome]
    refine ⟨hfst, fun x hx => ⟨gen, (Option.some.inj (hopen.symm.trans hx)).symm⟩, ?_⟩
    refine h.onDisk ?_ (hown _) rfl rfl (Disk.openWrite_tree ..) (Disk.openWrite_tree ..) hslot
      hothers
    change ({ u with script := u.script.file.2, log := u.log ++ [_] } : Conn)
      = { u with script := u.script.file.2, log := u.log ++ [_] }
    rw [hfst]

theorem sysOpenRead (h : Alike t w n o c d) (hp : t.resolve p = .entry (t.temp, w)) :
    (d.sysOpenRead p).1 = (c.sysOpenRead p).1 ∧
      (∀ x, (c.sysOpenRead p).1 = some x → ∃ gen, x = .file (t.temp, w) gen) ∧
      Alike t w n o (c.sysOpenRead p).2 (d.sysOpenRead p).2 := by
  have hp' : c.disk.tree.resolve p = .entry (t.temp, w) := h.tree.1 ▸ hp
  have hread := Disk.openRead_congr (h.tree.2.trans h.tree.1.symm) hp' h.slot.symm
  obtain ⟨u, G⟩ := c
  obtain ⟨v, H⟩ := d
  obtain rfl : u = v := h.conn
  have hread : H.disk.openRead p = G.disk.openRead p := hread
  unfold Ctx.sysOpenRead
  dsimp only
  rw [hread]
  refine ⟨rfl, fun x hx => ?_,
    h.local_ rfl (h.own.congr (Script.file_mem ..) (fun _ hx => hx) rfl rfl id) rfl rfl⟩
  split_ifs at hx
  unfold Disk.openRead at hx
  rw [hp'] at hx
  obtain ⟨gen, -, rfl⟩ := Option.map_eq_some_iff.mp hx
  exact ⟨gen, rfl⟩

theorem sysUnlink (h : Alike t w n o c d) (hp : t.resolve p = .entry (t.temp, w)) :
    (d.sysUnlink p).1 = (c.sysUnlink p).1 ∧
      Alike t w n o (c.sysUnlink p).2 (d.sysUnlink p).2 := by
  have hp' : c.disk.tree.resolve p = .entry (t.temp, w) := h.tree.1 ▸ hp
  obtain ⟨hfst, hslot⟩ := Disk.unlink_congr (h.tree.2.trans h.tree.1.symm) hp' h.slot.symm
  have hothers : ∀ l, l ≠ (t.temp, w) → (c.sysUnlink p).2.disk.slot l = c.disk.slot l :=
    fun l hl => c.sysUnlink_slot_of_ne p fun hr => hl (Target.entry.inj (hr.symm.trans hp'))
  obtain ⟨u, G⟩ := c
  obtain ⟨v, H⟩ := d
  obtain rfl : u = v := h.conn
  have hown : ∀ x, Own w n (t.temp, w)
      ({ u with script := u.script.file.2, log := u.log ++ [x] }) := fun x =>
     h.own.congr (Script.file_mem ..) (fun _ hx => hx) rfl rfl id
  by_cases hf : u.script.file.1 = .fail
  · have hfail : ∀ K, (Ctx.mk u K).sysUnlink p = (false, ({ Ctx.mk u K with
        script := u.script.file.2 }.note (.unlink p false))) := fun K => by
      unfold Ctx.sysUnlink
      dsimp only
      rw [if_pos hf]
    rw [hfail, hfail]
    exact ⟨rfl, h.local_ rfl (hown _) rfl rfl⟩
  · have hdone : ∀ K, (Ctx.mk u K).sysUnlink p = ((K.disk.unlink p).1, ({ Ctx.mk u K with
        script := u.script.file.2
        disk := (K.disk.unlink p).2 }.note (.unlink p (K.disk.unlink p).1))) := fun K => by
      unfold Ctx.sysUnlink
      dsimp only
      rw [if_neg hf]
    rw [hdone] at hothers
    rw [hdone, hdone]
    refine ⟨hfst, h.onDisk ?_ (hown _) rfl rfl (Disk.unlink_tree ..) (Disk.unlink_tree ..) hslot
      hothers⟩
    change ({ u with script := u.script.file.2, log := u.log ++ [_] } : Conn)
      = { u with script := u.script.file.2, log := u.log ++ [_] }
    rw [hfst]

end Paths

/-! #### The list -/

/-- A search through names finds the name exactly if it is there. -/
theorem searchName_names {xs : List (Option Path)} (h : none ∉ xs) (i : Nat) :
    (∃ j, searchName w i xs = .found j) ∧ 0 < xs.count (some w) ∨
      searchName w i xs = .absent ∧ xs.count (some w) = 0 := by
  cases hs : searchName w i xs with
  | found j => exact .inl ⟨⟨j, rfl⟩, List.count_pos_iff.mpr (searchName_found_idxOf hs).1⟩
  | absent => exact .inr ⟨rfl, List.count_eq_zero.mpr (searchName_absent_not_mem hs)⟩
  | null => exact absurd (searchName_null_mem hs) h

theorem search (h : Alike t w n o c d) :
    ((∃ i, searchName w 0 c.serverFiles.contents = .found i) ∧
      ∃ j, searchName w 0 d.serverFiles.contents = .found j) ∨
    searchName w 0 c.serverFiles.contents = .absent ∧
      searchName w 0 d.serverFiles.contents = .absent := by
  have hlisted := h.listed
  rcases searchName_names (w := w) h.names.1 0 with ⟨hi, hpos⟩ | ⟨hi, hzero⟩
  · rcases searchName_names (w := w) h.names.2 0 with ⟨hj, -⟩ | ⟨-, hzero⟩
    · exact .inl ⟨hi, hj⟩
    · omega
  · rcases searchName_names (w := w) h.names.2 0 with ⟨-, hpos⟩ | ⟨hj, -⟩
    · omega
    · exact .inr ⟨hi, hj⟩

/-- Both lists change in the name only, and in the same way. -/
theorem onList (h : Alike t w n o c d) (hconn : c'.toConn = d'.toConn)
    (hown : Own w n (t.temp, w) c'.toConn) (hdisk : c'.disk = c.disk) (hdisk' : d'.disk = d.disk)
    (hlisted : c'.serverFiles.contents.count (some w) = d'.serverFiles.contents.count (some w))
    (hnames : none ∉ c'.serverFiles.contents ∧ none ∉ d'.serverFiles.contents)
    (hothers : ∀ v, v ≠ w →
      c'.serverFiles.contents.count (some v) = c.serverFiles.contents.count (some v)) :
    Alike t w n o c' d' where
  conn := hconn
  own := hown
  tree := by
    rw [hdisk, hdisk']
    exact h.tree
  slot := by
    rw [hdisk, hdisk']
    exact h.slot
  listed := hlisted
  names := hnames
  others v hv := by
    rw [hdisk, hothers v hv]
    exact h.others v hv

theorem use (h : Alike t w n o c d) (op op' : ListOp) :
    Alike t w n o (c.use op) (d.use op') :=
  h.onList h.conn h.own rfl rfl h.listed h.names fun _ _ => rfl

theorem removeFileFromList (h : Alike t w n o c d) :
    Alike t w n o (removeFileFromList c w) (removeFileFromList d w) := by
  have hconn : ∀ c : Ctx, (FileServer.removeFileFromList c w).toConn = c.toConn := fun c => by
    rw [removeFileFromList_eq]
  have hcontents : ∀ c : Ctx, none ∉ c.serverFiles.contents →
      (FileServer.removeFileFromList c w).serverFiles.contents
        = c.serverFiles.contents.erase (some w) := by
    intro c hnames
    cases hs : searchName w 0 c.serverFiles.contents with
    | found i => exact contents_removeFileFromList_found c w hs
    | absent =>
      rw [List.erase_of_not_mem (searchName_absent_not_mem hs)]
      unfold FileServer.removeFileFromList Ctx.use
      dsimp only
      rw [hs]
    | null => exact absurd (searchName_null_mem hs) hnames
  refine h.onList ?_ ?_ (removeFileFromList_disk ..) (removeFileFromList_disk ..) ?_ ?_ ?_
  · rw [hconn, hconn]
    exact h.conn
  · rw [hconn]
    exact h.own
  · rw [hcontents c h.names.1, hcontents d h.names.2, List.count_erase_self, List.count_erase_self,
      h.listed]
  · rw [hcontents c h.names.1, hcontents d h.names.2]
    exact ⟨fun hm => h.names.1 (List.mem_of_mem_erase hm),
      fun hm => h.names.2 (List.mem_of_mem_erase hm)⟩
  · intro v hv
    rw [hcontents c h.names.1]
    exact List.count_erase_of_ne fun heq => hv (Option.some.inj heq)

theorem addFileToList_absent (hmem : c.script.mem = [])
    (hs : searchName w 0 c.serverFiles.contents = .absent) :
    addFileToList c w
      = { c.use (.add w true true) with
          serverFiles := vectorPushBack c.serverFiles (some w) true } := by
  have halloc : c.script.alloc = (true, c.script) := by
    unfold Script.alloc
    rw [hmem]
  have hgrowth : growth c = true := by
    unfold growth
    rw [halloc, halloc, ite_self]
  unfold addFileToList
  rw [halloc, hgrowth]
  unfold Ctx.use Ctx.sysAlloc
  dsimp only
  rw [hs]
  simp only [halloc]
  split_ifs <;> rfl

theorem addFileToList (h : Alike t w n o c d) :
    Alike t w n o (addFileToList c w) (addFileToList d w) := by
  rcases h.search with ⟨⟨i, hi⟩, ⟨j, hj⟩⟩ | ⟨hi, hj⟩
  · have hc : FileServer.addFileToList c w = c.use (.add w c.script.alloc.1 (growth c)) := by
      unfold FileServer.addFileToList Ctx.use
      dsimp only
      rw [hi]
    have hd : FileServer.addFileToList d w = d.use (.add w d.script.alloc.1 (growth d)) := by
      unfold FileServer.addFileToList Ctx.use
      dsimp only
      rw [hj]
    rw [hc, hd]
    exact h.use _ _
  · have hmem := h.own.mem
    rw [addFileToList_absent hmem hi, addFileToList_absent (h.script ▸ hmem) hj]
    have hpush : ∀ v : FssVector Path,
        (vectorPushBack v (some w) true).contents = v.contents ++ [some w] := fun v => by
      rw [contents_vectorPushBack]
      simp
    refine h.onList h.conn h.own rfl rfl ?_ ?_ fun v hv => ?_
    · dsimp only
      rw [hpush, hpush, List.count_append, List.count_append, h.listed]
    · dsimp only
      rw [hpush, hpush]
      constructor
      · simpa using h.names.1
      · simpa using h.names.2
    · dsimp only
      rw [hpush, List.count_append, List.count_singleton, if_neg, Nat.add_zero]
      simpa using Ne.symm hv

/-- An assignment to the record that keeps file, verb and name, and begins no upload. -/
theorem update (h : Alike t w n o c d) {f : Client → Client}
    (hfd : ∀ k x, (f k).fileFd = some x → k.fileFd = some x)
    (hverb : ∀ k, (f k).requestVerb = k.requestVerb) (hname : ∀ k, (f k).filename = k.filename)
    (hstate : ∀ k, (f k).state.Uploads → k.state.Uploads) :
    Alike t w n o (c.setClient f) (d.setClient f) :=
  h.setClient (h.own.congr rfl (hfd _) (hverb _) (hname _) (hstate _))

/-- Where the name is in the record, an upload may begin. -/
theorem assign (h : Alike t w w o c d) {f : Client → Client}
    (hfd : ∀ k x, (f k).fileFd = some x → k.fileFd = some x)
    (hverb : ∀ k, (f k).requestVerb = k.requestVerb) (hname : ∀ k, (f k).filename = k.filename) :
    Alike t w w o (c.setClient f) (d.setClient f) :=
  h.setClient ⟨h.own.mem, fun x hx => h.own.handle x (hfd _ x hx), (hverb _).symm ▸ h.own.verb,
    (hname _).trans h.own.name, .inl rfl⟩

/-- A file of the entry is opened. -/
theorem openFile (h : Alike t w w o c d) {r : Option Handle}
    (hr : ∀ x, r = some x → ∃ gen, x = .file (t.temp, w) gen) :
    Alike t w w o (c.setClient fun k => { k with fileFd := r })
      (d.setClient fun k => { k with fileFd := r }) :=
  h.setClient ⟨h.own.mem, hr, h.own.verb, h.own.name, .inl rfl⟩

/-- An assignment that enters a state without an upload. -/
theorem enter (h : Alike t w n o c d) (st : ConnState) {f : Client → Client} (hst : ¬ st.Uploads)
    (hstate : ∀ k, (f k).state = st) (hfd : ∀ k x, (f k).fileFd = some x → k.fileFd = some x)
    (hverb : ∀ k, (f k).requestVerb = k.requestVerb)
    (hname : ∀ k, (f k).filename = k.filename) :
    Alike t w n o (c.setClient f) (d.setClient f) :=
  h.update hfd hverb hname fun k hs => absurd (hstate k ▸ hs) hst

end Alike

end FileServer
