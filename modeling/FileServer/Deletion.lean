/-
  DELETE is all or nothing.

  `delete_request` unlinks the file first and takes the name from the list only where
  that succeeded.  That the name is gone from the list afterwards rests on the
  invariant that it stood in it once.
-/
import FileServer.Confinement
import FileServer.Listing

namespace FileServer

/-- What an OK reply to DELETE stands for. -/
structure Deleted (g g' : Globals) (w : Path) : Prop where
  listed : some w ∈ g.serverFiles.contents
  existed : (g.disk.read (g.disk.tree.path w)).isSome
  /-- The other names keep their order. -/
  erased : g'.serverFiles.contents = g.serverFiles.contents.erase (some w)
  unlisted : some w ∉ g'.serverFiles.contents
  unlinked : g'.disk.read (g.disk.tree.path w) = none
  tree : g'.disk.tree = g.disk.tree
  others : ∀ l, l ≠ (g.disk.tree.temp, w) → g'.disk.slot l = g.disk.slot l

/-- What an ERROR reply stands for. -/
structure Unchanged (g g' : Globals) : Prop where
  files : g'.serverFiles = g.serverFiles
  disk : g'.disk = g.disk

/-! ### The reply -/

section Reply

variable {d : Ctx}

/-- Sending a reply to another request than PUT and LIST leaves the list and the disk alone. -/
theorem executeWith_unchanged {f : Ctx → Ctx} (hput : d.client.requestVerb ≠ .put)
    (hlist : d.client.requestVerb ≠ .list) :
    Unchanged d.toGlobals (executeWith f d).toGlobals ∧ (executeWith f d).replies = d.replies := by
  have hline : (writeLine d).2.replies = d.replies := replies_writeLine d
  have hmod : ∀ (x : Ctx) i, (x.modifyEventLoop i).replies = x.replies := fun x i =>
    replies_of_single (Ctx.modifyEventLoop_log x i) rfl
  -- no file is unlinked where the verb is not PUT
  have hclose : ∀ x : Ctx, x.client.requestVerb = d.client.requestVerb →
      Unchanged x.toGlobals (closeAndCleanup x).toGlobals := by
    refine fun x hx => ⟨closeAndCleanup_serverFiles x, ?_⟩
    rw [closeAndCleanup_disk, if_neg fun h => hput (hx ▸ h.1)]
  rw [executeWith_eq]
  split
  · exact ⟨⟨rfl, rfl⟩, hline⟩
  · exact ⟨hclose (writeLine d).2 rfl, (closeAndCleanup_replies _).trans hline⟩
  · split_ifs
    · split
      · split
        · next hv => exact absurd hv hlist
        · exact ⟨⟨rfl, rfl⟩, (hmod _ _).trans hline⟩
        · exact ⟨hclose (setState (sentLine d _) .done) rfl,
            (closeAndCleanup_replies _).trans hline⟩
      · exact ⟨hclose (setState (sentLine d _) .done) rfl,
          (closeAndCleanup_replies _).trans hline⟩
      · exact ⟨⟨rfl, rfl⟩, hline⟩
    · exact ⟨⟨rfl, rfl⟩, (hmod _ _).trans hline⟩

theorem prepareAndSendResponse_unchanged (hput : d.client.requestVerb ≠ .put)
    (hlist : d.client.requestVerb ≠ .list) (st : Status) (msg : List Byte) :
    Unchanged d.toGlobals (prepareAndSendResponse d st msg).toGlobals ∧
      (prepareAndSendResponse d st msg).replies = d.replies ++ [(st, msg)] := by
  obtain ⟨hsame, hreplies⟩ := executeWith_unchanged (f := startSendList)
    (d := fillResponse d st msg) hput hlist
  exact ⟨hsame, hreplies.trans (Conn.replies_of_log (l := [.reply st msg]) rfl)⟩

end Reply

/-! ### The list -/

theorem filterMap_erase_some (w : Path) (xs : List (Option Path)) :
    (xs.erase (some w)).filterMap id = (xs.filterMap id).erase w := by
  induction xs with
  | nil => rfl
  | cons x xs ih =>
    cases x with
    | none =>
      rw [List.erase_cons_tail (by simp)]
      exact ih
    | some v =>
      by_cases hv : v = w
      · subst hv
        simp
      · rw [List.erase_cons_tail (by simpa using hv)]
        change v :: (xs.erase (some w)).filterMap id = (v :: xs.filterMap id).erase w
        rw [List.erase_cons_tail (by simpa using hv), ih]

theorem Listed.not_mem_erase {g : Globals} (h : Listed g) (w : Path) :
    some w ∉ g.serverFiles.contents.erase (some w) := by
  intro hmem
  have hw : w ∈ (listedNames g.serverFiles).erase w := by
    rw [listedNames, ← filterMap_erase_some]
    exact List.mem_filterMap.mpr ⟨some w, hmem, rfl⟩
  exact h.nodup.not_mem_erase hw

section Delete

variable {c : Ctx}

/-- Where `unlink` succeeds, the list and the directory both lose the name. -/
theorem deleted_of_unlink (hlisted : Listed c.toGlobals) (hname : EntryName c.client.filename)
    (hpath : c.filepath = c.disk.tree.path c.client.filename) {i : Nat}
    (hf : searchName c.client.filename 0 c.serverFiles.contents = .found i)
    (hu : (c.sysUnlink c.filepath).1 = true) :
    Deleted c.toGlobals
      (removeFileFromList (c.sysUnlink c.filepath).2 c.client.filename).toGlobals
      c.client.filename := by
  obtain ⟨hmem, -⟩ := searchName_found_idxOf hf
  obtain ⟨hok, hdisk⟩ := Ctx.sysUnlink_true_disk c c.filepath hu
  have hresolve : c.disk.tree.resolve (c.disk.tree.path c.client.filename)
      = .entry (c.disk.tree.temp, c.client.filename) := c.disk.tree.resolve_entryName hname
  have hdisk' : (removeFileFromList (c.sysUnlink c.filepath).2 c.client.filename).disk
      = (c.disk.unlink (c.disk.tree.path c.client.filename)).2 := by
    rw [removeFileFromList_disk, hdisk, hpath]
  have herase : (removeFileFromList (c.sysUnlink c.filepath).2
      c.client.filename).serverFiles.contents
        = c.serverFiles.contents.erase (some c.client.filename) :=
    contents_removeFileFromList_found (c.sysUnlink c.filepath).2 _ hf
  have htree : (removeFileFromList (c.sysUnlink c.filepath).2 c.client.filename).disk.tree
      = c.disk.tree := by rw [hdisk', Disk.unlink_tree]
  refine ⟨hmem, ?_, herase, herase ▸ hlisted.not_mem_erase _, ?_, htree, fun l hl => ?_⟩
  · rw [← hpath, ← Disk.unlink_fst]
    exact hok
  · rw [Disk.read_entry _ (by rw [htree]; exact hresolve), Disk.lookup_eq_none, hdisk']
    exact Disk.unlink_link _ hresolve
  · rw [hdisk']
    refine Disk.unlink_slot_of_ne _ fun heq => hl ?_
    exact (Target.entry.inj (hresolve.symm.trans heq)).symm

theorem Deleted.trans {g g' g'' : Globals} {w : Path} (h : Deleted g g' w)
    (h' : Unchanged g' g'') : Deleted g g'' w where
  listed := h.listed
  existed := h.existed
  erased := h'.files ▸ h.erased
  unlisted := h'.files ▸ h.unlisted
  unlinked := h'.disk ▸ h.unlinked
  tree := h'.disk ▸ h.tree
  others := h'.disk ▸ h.others

end Delete

/-- **DELETE is all or nothing.** -/
theorem delete_all_or_nothing {s : Server} (hs : Reachable s) {c : Ctx}
    (hg : c.toGlobals = s.toGlobals) (hverb : c.client.requestVerb = .delete)
    (hname : EntryName c.client.filename) (hlen : c.client.filename.length ≤ 255) :
    (∀ msg, (deleteRequest c).replies = c.replies ++ [(.ok, msg)] →
      Deleted s.toGlobals (deleteRequest c).toGlobals c.client.filename) ∧
    ∀ msg, (deleteRequest c).replies = c.replies ++ [(.error, msg)] →
      Unchanged s.toGlobals (deleteRequest c).toGlobals := by
  have hlisted : Listed c.toGlobals := hg ▸ hs.listed
  have hpath : c.filepath = c.disk.tree.path c.client.filename := filepath_of_length_le hlen
  rw [← hg]
  -- the reply that was chosen is the last one
  have hlast : ∀ {st st' : Status} {msg msg' : List Byte} {d : Ctx}, d.replies = c.replies →
      d.replies ++ [(st, msg)] = c.replies ++ [(st', msg')] → st = st' := by
    intro st st' msg msg' d hd heq
    rw [hd] at heq
    exact (Prod.mk.inj (List.singleton_inj.mp (List.append_cancel_left heq))).1
  have hput : c.client.requestVerb ≠ .put := by
    rw [hverb]
    decide
  have hlist : c.client.requestVerb ≠ .list := by
    rw [hverb]
    decide
  -- from here on the record of the search is one use longer, and all else is as in `c`
  let d := c.use (.find c.client.filename)
  unfold deleteRequest
  dsimp only
  split
  · -- `NULL` in the list: no reply is chosen
    refine ⟨fun msg h => ?_, fun msg h => ?_⟩ <;>
      exact absurd (congrArg List.length h) (by simp [Conn.replies, Ctx.use])
  · obtain ⟨hsame, hreplies⟩ := prepareAndSendResponse_unchanged (d := d) hput hlist .error
      errNoSuchFile
    rw [hreplies]
    exact ⟨fun msg h => (by cases hlast rfl h), fun _ _ => ⟨hsame.files, hsame.disk⟩⟩
  · next i hf =>
    have hunlink : (d.sysUnlink d.filepath).2.replies = c.replies :=
      replies_of_single (Ctx.sysUnlink_log d _) rfl
    rw [Ctx.sysUnlink_client]
    split_ifs with hu
    · have hdel : Deleted c.toGlobals
          (removeFileFromList (d.sysUnlink d.filepath).2 d.client.filename).toGlobals
          c.client.filename :=
        { deleted_of_unlink (c := d) (hlisted.congr rfl rfl) hname hpath hf hu with }
      obtain ⟨hsame, hreplies⟩ := prepareAndSendResponse_unchanged
        (d := removeFileFromList (d.sysUnlink d.filepath).2 d.client.filename)
        (by rw [removeFileFromList_client]; exact hput)
        (by rw [removeFileFromList_client]; exact hlist) .ok []
      have hremove : (removeFileFromList (d.sysUnlink d.filepath).2
          d.client.filename).replies = c.replies := by
        rw [Conn.replies, removeFileFromList_log]
        exact hunlink
      rw [hreplies]
      exact ⟨fun _ _ => hdel.trans hsame, fun msg h => by cases hlast hremove h⟩
    · obtain ⟨hsame, hreplies⟩ := prepareAndSendResponse_unchanged
        (d := (d.sysUnlink d.filepath).2) hput hlist .error errNoSuchFile
      have hdisk : (d.sysUnlink d.filepath).2.disk = d.disk :=
        Ctx.sysUnlink_false_disk d d.filepath (by simpa using hu)
      rw [hreplies]
      exact ⟨fun msg h => (by cases hlast hunlink h), fun _ _ =>
        ⟨hsame.files, hsame.disk.trans hdisk⟩⟩

/-- A connection asks to delete `x`, which was uploaded before. -/
def deletingX : Ctx := (emptyUpload "x").ctx
  { client := { clientCreate 6 with requestVerb := .delete, filename := ascii "x" }
    script := ⟨[], [.room 3], [], []⟩
    interest := some .read
    freed := false
    log := [] }

theorem delete_all_or_nothing_deletingX :
    Deleted (emptyUpload "x").toGlobals (deleteRequest deletingX).toGlobals (ascii "x") :=
  (delete_all_or_nothing (emptyUpload_reachable "x") (c := deletingX) rfl rfl (by decide)
    (by decide)).1 [] (by decide +kernel)

end FileServer
