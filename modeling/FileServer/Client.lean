/-
  Connections: the `client_t` record, what the kernel answers to its system calls,
  and the calls made so far.

  Whatever the environment decides for a connection is in its `Script`: what reads
  of its socket find, how much writes take, which file operations and allocations
  fail.  A script is consumed call by call; where it is used up, reads and writes
  give `EAGAIN` and file operations and allocations succeed.  Quantifying over
  scripts quantifies over every segmentation, delay and failure.

  `log` is a record of the calls a connection has made, for the statements about
  it; no function of the server reads it.
-/
import FileServer.Disk

namespace FileServer

/-! ### The record -/

/-- `verb` of `common.h`. -/
inductive Verb
  | get | put | delete | list | unknown
  deriving DecidableEq

/-- `conn_state_t`. -/
inductive ConnState
  | recvHeader | recvPutSize | recvPutData | sendOk | sendError | sendGetSize | sendGetData
  | sendListData | done
  deriving DecidableEq

/-- `MAX_HEADER_LEN`. -/
def maxHeaderLen : Nat := 1024

/-- `BUFFER_SIZE`. -/
def bufferSize : Nat := 4096

/-- `client_t`. -/
structure Client where
  fd : Int
  state : ConnState
  requestVerb : Verb
  /-- The bytes stored in `header_buf` so far; the rest of it is NULs. -/
  headerBuf : List Byte
  headerLen : Nat
  /-- The C string in `filename`. -/
  filename : Path
  /-- `file_fd`, `none` being `-1`. -/
  fileFd : Option Handle
  expectedSize : Nat
  fileSize : Nat
  bytesTransferred : Nat
  /-- `list_buf`, `none` being `NULL`. -/
  listBuf : Option (List Byte)
  listLen : Nat
  listSent : Nat
  simpleResponseBuf : List Byte
  simpleResponseLen : Nat
  simpleResponseSent : Nat

/-- `client_create`: what `calloc` and the assignments after it leave in the record. -/
def clientCreate (fd : Int) : Client where
  fd := fd
  state := .recvHeader
  requestVerb := .get
  headerBuf := []
  headerLen := 0
  filename := []
  fileFd := none
  expectedSize := 0
  fileSize := 0
  bytesTransferred := 0
  listBuf := none
  listLen := 0
  listSent := 0
  simpleResponseBuf := []
  simpleResponseLen := 0
  simpleResponseSent := 0

/-! ### Scripts -/

/-- What the next read of a socket finds: bytes that have arrived together, or no bytes. -/
inductive RxItem
  | data (b : Byte) (bs : List Byte)
  | eof | eagain | eintr | err
  deriving DecidableEq

/-- What the next write to a socket meets. -/
inductive TxItem
  /-- Room for `n` bytes. -/
  | room (n : Nat)
  | eagain | err
  deriving DecidableEq

/-- How the next file operation goes, beyond what the file system itself decides. -/
inductive FileItem
  | ok
  /-- A transfer stops after `n` bytes. -/
  | short (n : Nat)
  | fail
  deriving DecidableEq

/-- The environment of one connection. -/
structure Script where
  rx : List RxItem
  tx : List TxItem
  fx : List FileItem
  /-- Whether the next allocations succeed. -/
  mem : List Bool

/-- The result of `read`. -/
inductive ReadResult
  | bytes (bs : List Byte)
  | eof | eagain | eintr | err
  deriving DecidableEq

/-- The result of `write`. -/
inductive WriteResult
  | wrote (n : Nat)
  | eagain | err
  deriving DecidableEq

/-- Bytes that a read left behind stay in front of what arrives later. -/
def pushBack : List Byte → List RxItem → List RxItem
  | [], rx => rx
  | b :: bs, rx => .data b bs :: rx

/-- `read` of at most `count` bytes.  The end of the stream stays where it is. -/
def Script.read (s : Script) (count : Nat) : ReadResult × Script :=
  match s.rx with
  | [] => (.eagain, s)
  | .data b bs :: rx =>
    (.bytes ((b :: bs).take count), { s with rx := pushBack ((b :: bs).drop count) rx })
  | .eof :: _ => (.eof, s)
  | .eagain :: rx => (.eagain, { s with rx := rx })
  | .eintr :: rx => (.eintr, { s with rx := rx })
  | .err :: rx => (.err, { s with rx := rx })

/-- `write` of `count` bytes. -/
def Script.write (s : Script) (count : Nat) : WriteResult × Script :=
  match s.tx with
  | [] => (.eagain, s)
  | .room n :: tx => (.wrote (min n count), { s with tx := tx })
  | .eagain :: tx => (.eagain, { s with tx := tx })
  | .err :: tx => (.err, { s with tx := tx })

/-- How the next file operation goes. -/
def Script.file (s : Script) : FileItem × Script :=
  match s.fx with
  | [] => (.ok, s)
  | x :: fx => (x, { s with fx := fx })

/-- Whether the next allocation succeeds. -/
def Script.alloc (s : Script) : Bool × Script :=
  match s.mem with
  | [] => (true, s)
  | x :: mem => (x, { s with mem := mem })

/-! ### The log -/

/-- `FSS_EVENT_READ`, `FSS_EVENT_WRITE`: what a descriptor is watched for. -/
inductive Interest
  | read | write
  deriving DecidableEq

/-- The two kinds of status line. -/
inductive Status
  | ok | error
  deriving DecidableEq

/-- A call made for a connection. -/
inductive Call
  | read (r : ReadResult)
  /-- A `write` of these bytes to the socket. -/
  | write (bs : List Byte) (r : WriteResult)
  | modify (i : Interest)
  | openWrite (p : Path) (h : Option Handle)
  | openRead (p : Path) (h : Option Handle)
  | unlink (p : Path) (ok : Bool)
  /-- `recv_put_data` has `add_file_to_list` accept its upload. -/
  | accept (name : Path)
  /-- `prepare_and_send_response` is called. -/
  | reply (s : Status) (msg : List Byte)
  | close

namespace Call

/-- The bytes a call sent. -/
def sent : Call → List Byte
  | write bs (.wrote n) => bs.take n
  | _ => []

/-- The bytes a call received. -/
def received : Call → List Byte
  | read (.bytes bs) => bs
  | _ => []

/-- The path a call handed to `open` or `unlink`. -/
def path? : Call → Option Path
  | openWrite p _ => some p
  | openRead p _ => some p
  | unlink p _ => some p
  | _ => none

/-- The call opened a file for writing. -/
def opensUpload : Call → Bool
  | openWrite _ (some _) => true
  | _ => false

/-- The call accepted an upload. -/
def accepts : Call → Bool
  | accept _ => true
  | _ => false

/-- The reply that a call chose. -/
def reply? : Call → Option (Status × List Byte)
  | reply s msg => some (s, msg)
  | _ => none

end Call

/-- A connection: its record, its script, its registration with the event loop, and its log.
The record of a destroyed connection (`freed`) stays as it was at the end. -/
structure Conn where
  client : Client
  script : Script
  interest : Option Interest
  freed : Bool
  log : List Call

namespace Conn

/-- All bytes the socket has taken. -/
def sent (c : Conn) : List Byte := c.log.flatMap Call.sent

/-- All bytes received on the socket. -/
def received (c : Conn) : List Byte := c.log.flatMap Call.received

/-- The paths handed to `open` and `unlink`. -/
def paths (c : Conn) : List Path := c.log.filterMap Call.path?

/-- `recv_put_size` has opened the upload file. -/
def opened (c : Conn) : Bool := c.log.any Call.opensUpload

/-- `add_file_to_list` was called on the upload. -/
def accepted (c : Conn) : Bool := c.log.any Call.accepts

/-- The replies chosen, oldest first. -/
def replies (c : Conn) : List (Status × List Byte) := c.log.filterMap Call.reply?

end Conn

end FileServer
