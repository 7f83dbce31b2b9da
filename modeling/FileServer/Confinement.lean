/-
  Which paths the server hands to `open` and `unlink`.

  Every such path is `tempName/w`, with the name `w` of the request line cut at 255
  bytes (`paths_eq`).  It denotes a direct entry of the temporary directory exactly
  when `w` is an entry name (`confined_iff_entryName`); nothing in the server checks
  that, so a name with separators leads out of the directory
  (`not_confined_parent`).
-/
import FileServer.Equiv.Request

namespace FileServer

/-- The path is a name appended to the temporary directory, and denotes its entry of that name. -/
def Tree.Confined (t : Tree) (p : Path) : Prop :=
  ∃ w, EntryName w ∧ p = t.path w ∧ t.resolve p = .entry (t.temp, w)

/-- The name on the request line of a stream, cut as the record cuts it. -/
def requestedName (received : List Byte) : Path :=
  nameOf (requestOf (received.take (maxHeaderLen - 1)))

/-- The name of the record is the one that the received bytes ask for. -/
theorem HeaderOk.requestedName_eq {c : Ctx} (h : HeaderOk c)
    (hq : requestOf c.client.headerBuf ≠ none) :
    requestedName c.received = c.client.filename := by
  obtain ⟨q, hq⟩ := Option.ne_none_iff_exists'.mp hq
  obtain ⟨rest, hrest⟩ := h.received
  have htake : c.received.take (maxHeaderLen - 1)
      = c.client.headerBuf ++ rest.take (maxHeaderLen - 1 - c.client.headerBuf.length) := by
    rw [← hrest, List.take_append, List.take_of_length_le h.room]
  rw [requestedName, htake, requestOf_append hq, h.name, hq]

/-- **Every path** given to `open` or `unlink` is the requested name in the temporary
directory. -/
theorem paths_eq {s : Server} (hs : Reachable s) {conn : Conn} (hmem : conn ∈ s.conns) {p : Path}
    (hp : p ∈ conn.paths) : p = s.disk.tree.path (requestedName conn.received) := by
  have h : HeaderOk (s.ctx conn) := (requestOk_stable.reachable hs conn hmem).toHeaderOk
  have hq : requestOf conn.client.headerBuf ≠ none := by
    intro hnone
    have hnil := h.noPaths hnone
    rw [show conn.paths = [] from hnil] at hp
    cases hp
  rw [show conn.received = (s.ctx conn).received from rfl, h.requestedName_eq hq]
  exact (h.paths p hp).trans h.filepath_eq

theorem confined_path_iff (t : Tree) (w : Path) : t.Confined (t.path w) ↔ EntryName w := by
  constructor
  · rintro ⟨v, hv, heq, -⟩
    rwa [t.path_injective heq]
  · exact fun h => ⟨w, h, rfl, t.resolve_entryName h⟩

/-- **Confinement.** A path that the server hands to `open` or `unlink` for a connection stays
directly in the temporary directory exactly when the name on the request line, cut at 255 bytes, is
a single component other than `.` and `..`. -/
theorem confined_iff_entryName {s : Server} (hs : Reachable s) {conn : Conn}
    (hmem : conn ∈ s.conns) {p : Path} (hp : p ∈ conn.paths) :
    s.disk.tree.Confined p ↔ EntryName (requestedName conn.received) := by
  rw [paths_eq hs hmem hp, confined_path_iff]

/-- A client uploads an empty file under the name `w`. -/
def emptyUpload (w : String) : Server := (Server.boot bareDisk).run
  [.accept 5 ⟨pushBack (ascii "PUT " ++ ascii w ++ [newline] ++ sizeBytes 0) [], [], [], []⟩,
    .event 5 .onRead, .event 5 .onRead]

theorem emptyUpload_reachable (w : String) : Reachable (emptyUpload w) :=
  ⟨bareDisk, _, bareDisk_fresh, rfl⟩

theorem confined_emptyUpload : ∃ conn ∈ (emptyUpload "x").conns, ∃ p ∈ conn.paths,
    (emptyUpload "x").disk.tree.Confined p := by
  obtain ⟨conn, hmem, hp, hname⟩ : ∃ conn ∈ (emptyUpload "x").conns,
      ascii "aaaaaa/x" ∈ conn.paths ∧ EntryName (requestedName conn.received) := by decide +kernel
  exact ⟨conn, hmem, _, hp, (confined_iff_entryName (emptyUpload_reachable "x") hmem hp).mpr hname⟩

/-- The name `../x` leads to an entry of the directory above. -/
theorem not_confined_parent : ¬ ∀ s, Reachable s → ∀ conn ∈ s.conns, ∀ p ∈ conn.paths,
    s.disk.tree.Confined p := by
  intro h
  obtain ⟨conn, hmem, hp⟩ : ∃ conn ∈ (emptyUpload "../x").conns,
      bareTree.path (ascii "../x") ∈ conn.paths := by decide +kernel
  have hconf := h _ (emptyUpload_reachable _) conn hmem _ hp
  have htree : (emptyUpload "../x").disk.tree = bareTree := by
    have hle := Server.run_le (.boot bareDisk) [.accept 5 ⟨pushBack (ascii "PUT " ++
      ascii "../x" ++ [newline] ++ sizeBytes 0) [], [], [], []⟩, .event 5 .onRead, .event 5 .onRead]
    exact hle.disk.tree
  rw [htree, confined_path_iff] at hconf
  revert hconf
  decide +kernel

end FileServer
