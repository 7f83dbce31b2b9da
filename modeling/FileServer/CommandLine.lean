/-
  The command line of the client program.

  `parse_args` cuts the address in two with `strtok` and puts the method in capitals,
  `check_args` looks for the arguments that the method needs, and `main` connects and
  calls the handler.  `fields` and `CommandLine` say what a command line means without
  these functions.  `command_line_exact`: a handler is called exactly for the command
  lines that mean its call, on a socket connected to the host and the port that they
  name; for the others the usage is printed, followed by the methods unless the line is
  too short.  The status is that of a handler that returns: a signal can end it before.
-/
import FileServer.Process
import FileServer.Recognition

namespace FileServer

/-! ### Arguments -/

def colon : Byte := 58

/-- `strtok` with one delimiter, on a string or on what the call before it left: the token, `none`
being `NULL`, and what it leaves. -/
def strtok (delim : Byte) (s : List Byte) : Option (List Byte) × List Byte :=
  let s := s.dropWhile (· == delim)
  if s = [] then (none, [])
  else (some (s.takeWhile (· != delim)), (s.dropWhile (· != delim)).drop 1)

/-- `toupper`, from `'a'` to `'z'`. -/
def toupper (c : Byte) : Byte := if 97 ≤ c ∧ c ≤ 122 then c - 32 else c

/-- The array that `parse_args` returns. -/
structure Args where
  host : Option (List Byte)
  port : List Byte
  method : List Byte
  remote : Option Path
  localFile : Option Path

/-- `parse_args`. -/
def parseArgs (argv : List (List Byte)) : Option Args :=
  if argv.length < 3 then none
  else
    let host := strtok colon (argv.getD 1 [])
    let port := strtok colon host.2
    match port.1 with
    | none => none
    | some p => some ⟨host.1, p, (argv.getD 2 []).map toupper, argv[3]?, argv[4]?⟩

/-- What `main` prints. -/
inductive Notice
  | usage
  /-- `print_client_help`, which begins with `print_client_usage`. -/
  | help
  | unknownCommand
  deriving DecidableEq

/-- `check_args`: the arguments that it was given with the verb that it returns, or what it prints
before `exit(1)`. -/
def checkArgs : Option Args → Except Notice (Args × Verb)
  | none => .error .usage
  | some a =>
    if a.method = ascii "LIST" then .ok (a, .list)
    else if a.method = ascii "GET" then
      if a.remote ≠ none ∧ a.localFile ≠ none then .ok (a, .get) else .error .help
    else if a.method = ascii "DELETE" then
      if a.remote ≠ none then .ok (a, .delete) else .error .help
    else if a.method = ascii "PUT" then
      if a.remote = none ∨ a.localFile = none then .error .help else .ok (a, .put)
    else .error .help

/-! ### The client process -/

/-- What `connect_to_server` meets. -/
structure Connection where
  /-- Whether `getaddrinfo` succeeds. -/
  resolves : Bool
  /-- What `socket` returns, `none` being `-1`. -/
  socket : Option Int
  connectOk : Bool

/-- `connect_to_server`; `none` is `-1`. -/
def connectToServer (e : Connection) : Option Int × List FdCall :=
  if e.resolves = false then (none, [])
  else
    match e.socket with
    | none => (none, [])
    | some fd =>
      if e.connectOk = false then (none, [.opened fd, .closed fd]) else (some fd, [.opened fd])

/-- A call of a handler, without the socket. -/
inductive HandlerCall
  | get (remote localFile : Option Path)
  | put (remote localFile : Option Path)
  | delete (remote : Option Path)
  | list

/-- The `switch` of `main`. -/
def dispatch (a : Args) : Verb → Option HandlerCall
  | .get => some (.get a.remote a.localFile)
  | .put => some (.put a.remote a.localFile)
  | .delete => some (.delete a.remote)
  | .list => some .list
  | .unknown => none

/-- The end of the client process. -/
structure ClientEnd where
  /-- The exit status, where the handler that was called returns. -/
  status : Nat
  printed : Option Notice
  fds : List FdCall
  /-- The handler that was called, with its socket. -/
  handled : Option (Int × HandlerCall)

/-- `main` of `client.c`. -/
def clientMain (argv : List (List Byte)) (e : Option (List Byte) → List Byte → Connection) :
    ClientEnd :=
  match checkArgs (parseArgs argv) with
  | .error notice => ⟨1, some notice, [], none⟩
  | .ok (a, command) =>
    let r := connectToServer (e a.host a.port)
    match r.1 with
    | none => ⟨1, none, r.2, none⟩
    | some fd =>
      match dispatch a command with
      | none => ⟨0, some .unknownCommand, r.2 ++ [.closed fd], none⟩
      | some call => ⟨0, none, r.2 ++ [.closed fd], some (fd, call)⟩

/-! ### Meaning -/

/-- The fields of an address: what stands between its colons, without empty ones. -/
def fields (s : List Byte) : List (List Byte) := (s.splitOn colon).filter (· ≠ [])

/-- The words behind the address mean a call: the method, in capitals or not, and the names that it
takes.  What follows them is not looked at. -/
inductive Means : List (List Byte) → HandlerCall → Prop
  | get {method remote file : List Byte} {more : List (List Byte)}
      (h : method.map toupper = Verb.get.word) :
      Means (method :: remote :: file :: more) (.get remote file)
  | put {method remote file : List Byte} {more : List (List Byte)}
      (h : method.map toupper = Verb.put.word) :
      Means (method :: remote :: file :: more) (.put remote file)
  | delete {method remote : List Byte} {more : List (List Byte)}
      (h : method.map toupper = Verb.delete.word) :
      Means (method :: remote :: more) (.delete remote)
  | list {method : List Byte} {more : List (List Byte)}
      (h : method.map toupper = Verb.list.word) : Means (method :: more) .list

/-- A command line that asks for a call at a host and a port. -/
def CommandLine (argv : List (List Byte)) (host port : List Byte) (call : HandlerCall) : Prop :=
  ∃ prog address words more, argv = prog :: address :: words ∧
    fields address = host :: port :: more ∧ Means words call

/-- A command line without a method, or without a host and a port. -/
def TooShort (argv : List (List Byte)) : Prop :=
  argv.length < 3 ∨ (fields (argv.getD 1 [])).length < 2

/-- `connect_to_server` opens `fd`. -/
structure Connection.Opens (e : Connection) (fd : Int) : Prop where
  resolves : e.resolves = true
  socket : e.socket = some fd
  connectOk : e.connectOk = true

section Tokens

variable {s : List Byte}

theorem fields_nil : fields [] = [] := by simp [fields]

theorem fields_colon (s : List Byte) : fields (colon :: s) = fields s := by
  simp [fields, List.splitOn_cons_eq_if_modifyHead]

theorem fields_dropWhile (s : List Byte) : fields (s.dropWhile (· == colon)) = fields s := by
  induction s with
  | nil => rfl
  | cons b s ih =>
    by_cases hb : b = colon
    · subst hb
      rw [List.dropWhile_cons_of_pos (by simp), fields_colon, ih]
    · rw [List.dropWhile_cons_of_neg (by simpa using hb)]

theorem fields_append {token : List Byte} (rest : List Byte) (hne : token ≠ [])
    (hno : colon ∉ token) :
    fields (token ++ colon :: rest) = token :: fields rest := by
  unfold fields
  rw [List.splitOn_append_cons_self_of_not_mem hno]
  simp [hne]

theorem fields_singleton {token : List Byte} (hne : token ≠ []) (hno : colon ∉ token) :
    fields token = [token] := by
  unfold fields
  rw [List.splitOn_eq_singleton hno]
  simp [hne]

/-- **`strtok`** takes the first field and leaves the others. -/
theorem strtok_fields (s : List Byte) :
    (strtok colon s).1 = (fields s).head? ∧ fields (strtok colon s).2 = (fields s).tail := by
  rw [← fields_dropWhile s]
  unfold strtok
  dsimp only
  generalize hs : s.dropWhile (· == colon) = t
  split_ifs with hnil
  · rw [hnil, fields_nil]
    exact ⟨rfl, rfl⟩
  -- past the leading colons the text is a token and what the next colon leaves
  have hfirst : ∀ b ∈ t.head?, b ≠ colon := by
    intro b hb
    have := List.head?_dropWhile_not (· == colon) s
    rw [hs] at this
    cases t with
    | nil => cases hb
    | cons c t =>
      obtain rfl : c = b := by simpa using hb
      simpa using this
  have hne : t.takeWhile (· != colon) ≠ [] := by
    cases t with
    | nil => exact absurd rfl hnil
    | cons c t =>
      rw [List.takeWhile_cons_of_pos (by simpa using hfirst c rfl)]
      exact List.cons_ne_nil _ _
  have hno : colon ∉ t.takeWhile (· != colon) := by
    intro hmem
    have := List.mem_takeWhile_imp hmem
    simp at this
  have hsplit := List.takeWhile_append_dropWhile (p := (· != colon)) (l := t)
  cases hrest : t.dropWhile (· != colon) with
  | nil =>
    rw [hrest, List.append_nil] at hsplit
    have hfields := fields_singleton hne hno
    rw [hsplit] at hfields ⊢
    rw [hfields]
    exact ⟨rfl, fields_nil⟩
  -- `strtok` steps over one colon, `fields` over any number; the next call skips the others
  | cons c rest =>
    have hc : c = colon := by
      have := List.head?_dropWhile_not (· != colon) t
      rw [hrest] at this
      simpa using this
    subst hc
    rw [hrest] at hsplit
    have hfields := fields_append rest hne hno
    rw [hsplit] at hfields
    rw [hfields]
    exact ⟨rfl, rfl⟩

end Tokens

/-! ### Every command line -/

section Lines

variable {argv words : List (List Byte)} {e : Option (List Byte) → List Byte → Connection}
  {call call' : HandlerCall}

/-- **`parse_args`.** -/
theorem parseArgs_eq (prog address method : List Byte) (names : List (List Byte)) :
    parseArgs (prog :: address :: method :: names)
      = ((fields address)[1]?).map fun port =>
          Args.mk (fields address).head? port (method.map toupper) names[0]? names[1]? := by
  obtain ⟨hhost, hrest⟩ := strtok_fields address
  obtain ⟨hport, -⟩ := strtok_fields (strtok colon address).2
  have hlen : ¬(prog :: address :: method :: names).length < 3 := by
    simp only [List.length_cons]
    omega
  have hnext : (strtok colon (strtok colon address).2).1 = (fields address)[1]? := by
    rw [hport, hrest, List.head?_eq_getElem?, List.getElem?_tail]
  unfold parseArgs
  rw [if_neg hlen]
  show (match (strtok colon (strtok colon address).2).1 with
    | none => none
    | some p => some (Args.mk (strtok colon address).1 p (method.map toupper) names[0]? names[1]?))
    = _
  rw [hnext, hhost]
  cases (fields address)[1]? <;> rfl

/-- A command line that is not too short names a host and a port. -/
theorem parseArgs_cases (argv : List (List Byte)) :
    TooShort argv ∧ parseArgs argv = none ∨
      ¬TooShort argv ∧ ∃ prog address method names host port more,
        argv = prog :: address :: method :: names ∧ fields address = host :: port :: more ∧
        parseArgs argv
          = some ⟨some host, port, method.map toupper, names[0]?, names[1]?⟩ := by
  by_cases hlen : argv.length < 3
  · exact .inl ⟨.inl hlen, if_pos hlen⟩
  obtain ⟨prog, address, method, names, rfl⟩ :
      ∃ prog address method names, argv = prog :: address :: method :: names := by
    match argv, hlen with
    | prog :: address :: method :: names, _ => exact ⟨prog, address, method, names, rfl⟩
    | [], h => exact absurd (show 0 < 3 by decide) h
    | [_], h => exact absurd (show 1 < 3 by decide) h
    | [_, _], h => exact absurd (show 2 < 3 by decide) h
  have hparse := parseArgs_eq prog address method names
  cases hfields : fields address with
  | nil =>
    rw [hfields] at hparse
    exact .inl ⟨.inr (show (fields address).length < 2 by rw [hfields]; decide), hparse⟩
  | cons host ports =>
    cases ports with
    | nil =>
      rw [hfields] at hparse
      exact .inl ⟨.inr (show (fields address).length < 2 by
        rw [hfields]; exact Nat.lt_succ_self 1), hparse⟩
    | cons port more =>
      rw [hfields] at hparse
      refine .inr ⟨?_, prog, address, method, names, host, port, more, rfl, hfields, hparse⟩
      rintro (h | h)
      · exact hlen h
      · change (fields address).length < 2 at h
        rw [hfields, List.length_cons, List.length_cons] at h
        omega

/-- Such a command line means nothing. -/
theorem TooShort.not_commandLine (h : TooShort argv) (host port : List Byte)
    (call : HandlerCall) : ¬CommandLine argv host port call := by
  rintro ⟨prog, address, words, more, rfl, hfields, hmeans⟩
  rcases h with h | h
  · cases hmeans <;> simp only [List.length_cons] at h <;> omega
  · change (fields address).length < 2 at h
    rw [hfields, List.length_cons, List.length_cons] at h
    omega

/-- The host and the port are the first fields, and the call is what the other words mean. -/
theorem commandLine_iff {prog address host port : List Byte} {more : List (List Byte)}
    (hfields : fields address = host :: port :: more) {host' port' : List Byte} :
    CommandLine (prog :: address :: words) host' port' call
      ↔ host' = host ∧ port' = port ∧ Means words call := by
  constructor
  · rintro ⟨_, _, _, more', heq, hfields', hmeans⟩
    obtain ⟨rfl, rfl, rfl⟩ : _ ∧ _ ∧ _ := by simpa using heq
    obtain ⟨rfl, rfl, -⟩ : host = host' ∧ port = port' ∧ more = more' := by
      simpa using hfields.symm.trans hfields'
    exact ⟨rfl, rfl, hmeans⟩
  · rintro ⟨rfl, rfl, hmeans⟩
    exact ⟨prog, address, _, more, rfl, hfields, hmeans⟩

theorem Means.unique (h : Means words call) (h' : Means words call') : call = call' := by
  cases h with
  | get h =>
    cases h' with
    | get => rfl
    | put h' => exact absurd (h.symm.trans h') (by decide)
    | delete h' => exact absurd (h.symm.trans h') (by decide)
    | list h' => exact absurd (h.symm.trans h') (by decide)
  | put h =>
    cases h' with
    | get h' => exact absurd (h.symm.trans h') (by decide)
    | put => rfl
    | delete h' => exact absurd (h.symm.trans h') (by decide)
    | list h' => exact absurd (h.symm.trans h') (by decide)
  | delete h =>
    cases h' with
    | get h' => exact absurd (h.symm.trans h') (by decide)
    | put h' => exact absurd (h.symm.trans h') (by decide)
    | delete => rfl
    | list h' => exact absurd (h.symm.trans h') (by decide)
  | list h =>
    cases h' with
    | get h' => exact absurd (h.symm.trans h') (by decide)
    | put h' => exact absurd (h.symm.trans h') (by decide)
    | delete h' => exact absurd (h.symm.trans h') (by decide)
    | list => rfl

/-- **`check_args`** finds the call that the words mean. -/
theorem checkArgs_cases (host : Option (List Byte)) (port method : List Byte)
    (names : List (List Byte)) :
    (∃ a v call, checkArgs (some ⟨host, port, method.map toupper, names[0]?, names[1]?⟩)
        = .ok (a, v) ∧ a.host = host ∧ a.port = port ∧ dispatch a v = some call ∧
        Means (method :: names) call) ∨
      checkArgs (some ⟨host, port, method.map toupper, names[0]?, names[1]?⟩) = .error .help ∧
        ∀ call, ¬Means (method :: names) call := by
  unfold checkArgs
  dsimp only
  -- the tests in the order of `check_args`; LIST takes any number of names
  by_cases hlist : method.map toupper = ascii "LIST"
  · rw [if_pos hlist]
    exact .inl ⟨_, _, .list, rfl, rfl, rfl, rfl, .list hlist⟩
  rw [if_neg hlist]
  by_cases hget : method.map toupper = ascii "GET"
  · rw [if_pos hget]
    have hother : ∀ v : Verb, method.map toupper = v.word → v.word = ascii "GET" :=
      fun v h => h.symm.trans hget
    match names with
    | remote :: file :: more =>
      exact .inl ⟨_, _, .get remote file, rfl, rfl, rfl, rfl, .get hget⟩
    | [] =>
      refine .inr ⟨rfl, fun call h => ?_⟩
      cases h with
      | list h => exact hlist h
    | [_] =>
      refine .inr ⟨rfl, fun call h => ?_⟩
      cases h with
      | delete h => exact absurd (hother _ h) (by decide)
      | list h => exact hlist h
  rw [if_neg hget]
  by_cases hdelete : method.map toupper = ascii "DELETE"
  · rw [if_pos hdelete]
    match names with
    | remote :: more =>
      exact .inl ⟨_, _, .delete remote, rfl, rfl, rfl, rfl, .delete hdelete⟩
    | [] =>
      refine .inr ⟨rfl, fun call h => ?_⟩
      cases h with
      | list h => exact hlist h
  rw [if_neg hdelete]
  by_cases hput : method.map toupper = ascii "PUT"
  · rw [if_pos hput]
    match names with
    | remote :: file :: more =>
      exact .inl ⟨_, _, .put remote file, rfl, rfl, rfl, rfl, .put hput⟩
    | [] =>
      refine .inr ⟨rfl, fun call h => ?_⟩
      cases h with
      | list h => exact hlist h
    | [_] =>
      refine .inr ⟨rfl, fun call h => ?_⟩
      cases h with
      | delete h => exact hdelete h
      | list h => exact hlist h
  rw [if_neg hput]
  refine .inr ⟨rfl, fun call h => ?_⟩
  cases h with
  | get h => exact hget h
  | put h => exact hput h
  | delete h => exact hdelete h
  | list h => exact hlist h

/-- **`connect_to_server`** leaves open what it returns. -/
theorem connectToServer_spec (e : Connection) :
    (∀ fd, (connectToServer e).1 = some fd ↔ e.Opens fd) ∧
      openFds [] (connectToServer e).2 = some (connectToServer e).1.toList := by
  unfold connectToServer
  cases hr : e.resolves with
  | false =>
    refine ⟨fun fd => iff_of_false (by simp) fun h => ?_, rfl⟩
    exact absurd (hr.symm.trans h.resolves) (by decide)
  | true =>
    cases hs : e.socket with
    | none =>
      refine ⟨fun fd => iff_of_false (by simp) fun h => ?_, rfl⟩
      exact absurd (hs.symm.trans h.socket) (by simp)
    | some fd =>
      cases hc : e.connectOk with
      | false =>
        refine ⟨fun fd => iff_of_false (by simp) fun h => ?_, by simp [openFds]⟩
        exact absurd (hc.symm.trans h.connectOk) (by decide)
      | true =>
        refine ⟨fun fd' => ⟨fun h => ?_, fun h => ?_⟩, rfl⟩
        · exact ⟨hr, hs.trans h, hc⟩
        · exact hs.symm.trans h.socket

theorem clientMain_error {notice : Notice} (h : checkArgs (parseArgs argv) = .error notice) :
    clientMain argv e = ⟨1, some notice, [], none⟩ := by
  unfold clientMain
  rw [h]

theorem clientMain_ok {a : Args} {v : Verb} (h : checkArgs (parseArgs argv) = .ok (a, v))
    (hcall : dispatch a v = some call) : clientMain argv e
      = (connectToServer (e a.host a.port)).1.elim
        ⟨1, none, (connectToServer (e a.host a.port)).2, none⟩ fun fd =>
          ⟨0, none, (connectToServer (e a.host a.port)).2 ++ [.closed fd], some (fd, call)⟩ := by
  unfold clientMain
  rw [h]
  dsimp only
  rw [hcall]
  cases (connectToServer (e a.host a.port)).1 <;> rfl

/-- **The command line.**  Whatever the arguments are, a handler is called exactly if they mean its
call, and on a socket that was connected to the host and the port that they name; it never gets
`NULL`.  The usage is printed for those that are too short, the help for the others that mean no
call.  Where the handler returns, no descriptor stays open, and the exit status is 0 exactly if a
handler was called. -/
theorem command_line_exact (argv : List (List Byte))
    (e : Option (List Byte) → List Byte → Connection) :
    (∀ fd call, (clientMain argv e).handled = some (fd, call) ↔
        ∃ host port, CommandLine argv host port call ∧ (e (some host) port).Opens fd) ∧
      ((clientMain argv e).printed = some .usage ↔ TooShort argv) ∧
      ((clientMain argv e).printed = some .help ↔
        ¬TooShort argv ∧ ∀ host port call, ¬CommandLine argv host port call) ∧
      openFds [] (clientMain argv e).fds = some [] ∧
      ((clientMain argv e).status = 0 ↔ (clientMain argv e).handled ≠ none) := by
  rcases parseArgs_cases argv with ⟨hshort, hparse⟩ | ⟨hlong, prog, address, method, names, host,
    port, more, rfl, hfields, hparse⟩
  · -- nothing is parsed
    rw [clientMain_error (by rw [hparse]; rfl)]
    refine ⟨fun fd call => iff_of_false (by simp) ?_, iff_of_true rfl hshort,
      iff_of_false (by simp) fun h => h.1 hshort, rfl, by simp⟩
    rintro ⟨host, port, h, -⟩
    exact hshort.not_commandLine host port call h
  rcases checkArgs_cases (some host) port method names with ⟨a, v, call, hcheck, hhost, hport,
    hcall, hmeans⟩ | ⟨hcheck, hno⟩
  · obtain ⟨hopens, hfds⟩ := connectToServer_spec (e (some host) port)
    have hhelp : ¬(¬TooShort (prog :: address :: method :: names) ∧ ∀ host port call,
        ¬CommandLine (prog :: address :: method :: names) host port call) := fun h =>
      h.2 host port call ((commandLine_iff hfields).mpr ⟨rfl, rfl, hmeans⟩)
    rw [clientMain_ok (by rw [hparse]; exact hcheck) hcall, hhost, hport]
    -- the command is understood; what is left is whether the server can be reached
    cases hr : (connectToServer (e (some host) port)).1 with
    | none =>
      rw [hr] at hfds hopens
      refine ⟨fun fd call => iff_of_false (by simp) ?_, iff_of_false (by simp) hlong,
        iff_of_false (by simp) hhelp, hfds, by simp⟩
      rintro ⟨host', port', h, hopen⟩
      obtain ⟨rfl, rfl, -⟩ := (commandLine_iff hfields).mp h
      exact absurd ((hopens fd).mpr hopen) (by simp)
    | some fd =>
      rw [hr] at hfds hopens
      refine ⟨fun fd' call' => ⟨fun h => ?_, ?_⟩, iff_of_false (by simp) hlong,
        iff_of_false (by simp) hhelp, ?_, by simp⟩
      · obtain ⟨rfl, rfl⟩ := Prod.mk.inj (Option.some.inj h)
        exact ⟨host, port, (commandLine_iff hfields).mpr ⟨rfl, rfl, hmeans⟩, (hopens fd).mp rfl⟩
      · rintro ⟨host', port', h, hopen⟩
        obtain ⟨rfl, rfl, hmeans'⟩ := (commandLine_iff hfields).mp h
        obtain rfl := Option.some.inj ((hopens fd').mpr hopen)
        rw [hmeans.unique hmeans']
        rfl
      · show openFds [] ((connectToServer (e (some host) port)).2 ++ [.closed fd]) = some []
        rw [openFds_append, hfds]
        show openFds [fd] [.closed fd] = some []
        simp [openFds]
  · rw [clientMain_error (by rw [hparse]; exact hcheck)]
    refine ⟨fun fd call => iff_of_false (by simp) ?_, iff_of_false (by simp) hlong,
      iff_of_true rfl ⟨hlong, fun host port call h => ?_⟩, rfl, by simp⟩
    · rintro ⟨host, port, h, -⟩
      exact hno call ((commandLine_iff hfields).mp h).2.2
    · exact hno call ((commandLine_iff hfields).mp h).2.2

example : (clientMain
    [ascii "client", ascii ":host::80:x", ascii "gEt", ascii "a", ascii "b", ascii "c"]
    fun _ _ => ⟨true, some 5, true⟩).handled = some (5, .get (ascii "a") (ascii "b")) := by rfl

end Lines

end FileServer
