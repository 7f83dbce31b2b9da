/-
  The server process: its connections, the event loop of `main`, and its runs.

  An `Action` is one turn of a loop in `main`: one connection accepted by
  `accept_connections`, or one event of a batch handled.  A run is a list of
  actions.  Which events the kernel reports is left open: an event may come for any
  descriptor, in any order, so whatever holds of all runs holds of those that an
  actual kernel produces.
-/
import FileServer.Handlers

namespace FileServer

/-- The process.  `conns` holds every `client_t` ever allocated, the freed ones included, in the
order of allocation; a `ConnId` is an index into it. -/
structure Server extends Globals where
  conns : List Conn

namespace Server

/-- The context in which a handler runs for the connection `conn`. -/
def ctx (s : Server) (conn : Conn) : Ctx := { conn with toGlobals := s.toGlobals }

/-- The server after a handler for connection `i` ended in `c`. -/
def put (s : Server) (i : ConnId) (c : Ctx) : Server :=
  { c.toGlobals with conns := s.conns.set i c.toConn }

/-- Call a handler for connection `i`. -/
def call (s : Server) (i : ConnId) (handler : Ctx → Ctx) : Server :=
  match s.conns[i]? with
  | some conn => s.put i (handler (s.ctx conn))
  | none => s

/-- A descriptor that `accept` cannot return, because a connection has it open. -/
def fdOpen (s : Server) (fd : Int) : Prop :=
  ∃ conn ∈ s.conns, conn.freed = false ∧ conn.client.fd = fd

instance (s : Server) (fd : Int) : Decidable (s.fdOpen fd) :=
  inferInstanceAs (Decidable (∃ conn ∈ s.conns, conn.freed = false ∧ conn.client.fd = fd))

end Server

/-- What the event loop reported for a descriptor. -/
structure Events where
  read : Bool
  write : Bool
  error : Bool
  deriving DecidableEq

namespace Events

/-- `FSS_EVENT_READ`. -/
def onRead : Events := ⟨true, false, false⟩

/-- `FSS_EVENT_WRITE`. -/
def onWrite : Events := ⟨false, true, false⟩

/-- `FSS_EVENT_ERROR`. -/
def onError : Events := ⟨false, false, true⟩

end Events

/-- One turn of a loop in `main`. -/
inductive Action
  /-- `accept` returns `fd`; the new connection will meet `script`. -/
  | accept (fd : Int) (script : Script)
  /-- An event for `fd`. -/
  | event (fd : Int) (events : Events)

/-- What the next `accept` on the listening socket gives. -/
inductive AcceptResult
  | conn (fd : Int) (script : Script)
  | eagain | eintr | err

/-- An element of the array that `event_loop_wait` fills. -/
inductive FssEvent
  /-- `listen_fd` is ready, and `accept` will give these results. -/
  | listen (results : List AcceptResult)
  | client (fd : Int) (events : Events)

/-- One pass through the loop of `accept_connections`.  The allocation of the record comes first in
the script's `mem`, the growth of the map second. -/
def acceptConnection (s : Server) (fd : Int) (script : Script) : Server :=
  if s.fdOpen fd then s
  else
    let record := script.alloc
    if record.1 = false then { s with fault := true }
    else
      let grow := if s.fdToClient.full then record.2.alloc else (true, record.2)
      { s with
        fdToClient := dictionarySet s.fdToClient fd (some s.conns.length) grow.1
        conns := s.conns ++
          [{ client := clientCreate fd
             script := grow.2
             interest := some .read
             freed := false
             log := [] }] }

/-- The body of the `for` loop of `main`, for a descriptor other than the listening one. -/
def handleEvent (s : Server) (fd : Int) (ev : Events) : Server :=
  match dictionaryGet s.fdToClient fd with
  | none => s
  | some i =>
    if ev.error then s.call i closeAndCleanup
    else
      let s := if ev.read then s.call i handleReadEvent else s
      if ev.write then
        match s.conns[i]? with
        | none => s
        | some conn =>
          -- `client->state` is read here, also when the read event destroyed the client
          if conn.freed then { s with fault := true }
          else if conn.client.state ≠ .recvHeader then s.call i handleWriteEvent
          else s
      else s

namespace Server

/-- One turn.  A process without defined behaviour takes none. -/
def act (s : Server) (a : Action) : Server :=
  if s.fault then s
  else
    match a with
    | .accept fd script => acceptConnection s fd script
    | .event fd ev => handleEvent s fd ev

/-- A run of the server. -/
def run (s : Server) (acts : List Action) : Server := acts.foldl act s

/-- `accept_connections`, and the last result of `accept` in it.  Where the results are used up,
`accept` gives `EAGAIN`. -/
def acceptConnections (s : Server) : List AcceptResult → Server × AcceptResult
  | [] => (s, .eagain)
  | .conn fd script :: results => (s.act (.accept fd script)).acceptConnections results
  | .eagain :: _ => (s, .eagain)
  | .eintr :: results => s.acceptConnections results
  | .err :: _ => (s, .err)

/-- One pass through the `for` loop of `main`. -/
def serveFssEvent (s : Server) : FssEvent → Server
  | .listen results => (s.acceptConnections results).1
  | .client fd events => s.act (.event fd events)

/-- The `for` loop of `main`, over the events of one batch. -/
def serveBatch (s : Server) (batch : List FssEvent) : Server := batch.foldl serveFssEvent s

/-- The `while` loop of `main`, over the batches that `event_loop_wait` returns. -/
def serve (s : Server) (batches : List (List FssEvent)) : Server := batches.foldl serveBatch s

/-- The server when `main` enters its loop. -/
def boot (k : Disk) : Server where
  serverFiles := vectorCreate false
  fdToClient := dictionaryCreate
  disk := k
  uses := []
  fault := false
  conns := []

end Server

/-- The temporary directory is as `mkdtemp` leaves it: without entries. -/
def Disk.Fresh (k : Disk) : Prop := ∀ w, (k.slot (k.tree.temp, w)).link = none

theorem bareDisk_fresh : bareDisk.Fresh := fun _ => rfl

/-- The states that the server can reach. -/
def Reachable (s : Server) : Prop := ∃ k acts, k.Fresh ∧ s = (Server.boot k).run acts

end FileServer
