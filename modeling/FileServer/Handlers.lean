/-
  The connection handlers of `server.c`.

  A handler works on a `Ctx`: the connection it was called for and the shared
  globals.  It cannot reach another connection's record, script or registration,
  because the C functions only ever dereference the `client` they are given.

  `system calls` wrap the operations of the connection's script and of the disk and
  write the log; below them the functions follow the source one by one, in its
  order.  After `close_and_cleanup` the record is destroyed; every caller returns at
  once.
-/
import FileServer.Client
import FileServer.Collections
import FileServer.Lib.Loop

namespace FileServer

open Loop

/-- The identity of a `client_t` allocation. -/
abbrev ConnId := Nat

/-- A use of `server_files`. -/
inductive ListOp
  /-- `add_file_to_list`, where `dup` is what `strdup` finds, and `grow` the `realloc` of a vector
  that is full. -/
  | add (name : Path) (dup grow : Bool)
  | remove (name : Path)
  /-- The search of `delete_request`. -/
  | find (name : Path)
  /-- The loops of `build_list_buffer`. -/
  | list

/-- The globals of `server.c` that the handlers use, with the file system. -/
structure Globals where
  serverFiles : FssVector Path
  fdToClient : FssDictionary ConnId
  disk : Disk
  /-- The uses of `serverFiles` so far, oldest first.  The program keeps no such record. -/
  uses : List ListOp
  /-- A `NULL` element was passed to `strcmp` or `strlen`, or freed memory was read: from here on
  the process has no defined behaviour. -/
  fault : Bool

/-- What a handler can reach. -/
structure Ctx extends Conn, Globals

namespace Ctx

/-- Assign to fields of `*client`. -/
def setClient (c : Ctx) (f : Client → Client) : Ctx := { c with client := f c.client }

/-- Add a call to the log. -/
def note (c : Ctx) (x : Call) : Ctx := { c with log := c.log ++ [x] }

/-- Record a use of `server_files`. -/
def use (c : Ctx) (op : ListOp) : Ctx := { c with uses := c.uses ++ [op] }

/-! ### System calls -/

/-- `read(client->fd, …, count)`. -/
def sysRead (c : Ctx) (count : Nat) : ReadResult × Ctx :=
  let r := c.script.read count
  (r.1, { c with script := r.2 }.note (.read r.1))

/-- `write(client->fd, bs, |bs|)`. -/
def sysWrite (c : Ctx) (bs : List Byte) : WriteResult × Ctx :=
  let r := c.script.write bs.length
  (r.1, { c with script := r.2 }.note (.write bs r.1))

/-- `open(p, O_WRONLY | O_CREAT | O_TRUNC, …)`. -/
def sysOpenWrite (c : Ctx) (p : Path) : Option Handle × Ctx :=
  let r := c.script.file
  let o := if r.1 = .fail then (none, c.disk) else c.disk.openWrite p
  (o.1, { c with script := r.2, disk := o.2 }.note (.openWrite p o.1))

/-- `open(p, O_RDONLY)`. -/
def sysOpenRead (c : Ctx) (p : Path) : Option Handle × Ctx :=
  let r := c.script.file
  let h := if r.1 = .fail then none else c.disk.openRead p
  (h, { c with script := r.2 }.note (.openRead p h))

/-- `fstat(h, &st)`: `st.st_size`, unless it fails. -/
def sysFstat (c : Ctx) (h : Handle) : Option Nat × Ctx :=
  let r := c.script.file
  (if r.1 = .fail then none else some (c.disk.size h), { c with script := r.2 })

/-- `pread(h, …, count, off)`, `none` on failure. -/
def sysPread (c : Ctx) (h : Handle) (count off : Nat) : Option (List Byte) × Ctx :=
  let r := c.script.file
  let bs := match r.1 with
    | .ok => c.disk.pread h count off
    | .short n => c.disk.pread h (min n count) off
    | .fail => none
  (bs, { c with script := r.2 })

/-- `pwrite(h, bs, |bs|, off)`: the number of bytes written, `none` on failure. -/
def sysPwrite (c : Ctx) (h : Handle) (bs : List Byte) (off : Nat) : Option Nat × Ctx :=
  let r := c.script.file
  let w := match r.1 with
    | .ok => (some bs.length, c.disk.pwrite h bs off)
    | .short n => (some (min n bs.length), c.disk.pwrite h (bs.take n) off)
    | .fail => (none, c.disk)
  (w.1, { c with script := r.2, disk := w.2 })

/-- `unlink(p)`, and whether it succeeded. -/
def sysUnlink (c : Ctx) (p : Path) : Bool × Ctx :=
  let r := c.script.file
  let u := if r.1 = .fail then (false, c.disk) else c.disk.unlink p
  (u.1, { c with script := r.2, disk := u.2 }.note (.unlink p u.1))

/-- Whether an allocation succeeds. -/
def sysAlloc (c : Ctx) : Bool × Ctx :=
  let r := c.script.alloc
  (r.1, { c with script := r.2 })

/-- `modify_event_loop`. -/
def modifyEventLoop (c : Ctx) (i : Interest) : Ctx := { c with interest := some i }.note (.modify i)

/-- `close(client->file_fd)`, and the assignment of `-1` after it. -/
def closeFile (c : Ctx) : Ctx := c.setClient fun k => { k with fileFd := none }

/-- The path every handler builds with `snprintf(filepath, sizeof(filepath), "%s/%s", …)`. -/
def filepath (c : Ctx) : Path :=
  snprintf 1024 (c.disk.tree.tempName ++ [slash] ++ c.client.filename)

end Ctx

open Ctx

/-! ### Messages -/

/-- `err_bad_request`. -/
def errBadRequest : List Byte := ascii "Bad request\n"

/-- `err_bad_file_size`. -/
def errBadFileSize : List Byte := ascii "Bad file size\n"

/-- `err_no_such_file`. -/
def errNoSuchFile : List Byte := ascii "No such file\n"

/-! ### Closing -/

/-- `client_destroy`. -/
def clientDestroy (c : Ctx) : Ctx :=
  { c with client := { c.client with fileFd := none, listBuf := none }, freed := true }

/-- `close_and_cleanup`. -/
def closeAndCleanup (c : Ctx) : Ctx :=
  let c := { c with interest := none }.note .close
  let c :=
    if c.client.requestVerb = .put ∧ c.client.state ≠ .done then (c.sysUnlink c.filepath).2 else c
  clientDestroy { c with fdToClient := dictionaryRemove c.fdToClient c.client.fd }

/-! ### The list of names -/

/-- How a search with `strcmp` through `server_files` ends. -/
inductive Search
  | found (i : Nat)
  | absent
  /-- It came to a `NULL` element. -/
  | null
  deriving DecidableEq

/-- `strcmp` the elements with `name` until one is equal; `i` is the index of the first. -/
def searchName (name : Path) : Nat → List (Option Path) → Search
  | _, [] => .absent
  | _, none :: _ => .null
  | i, some w :: ws => if w = name then .found i else searchName name (i + 1) ws

/-- The first loop of `build_list_buffer`: the size of the payload, from the `i`-th of `count`
names on. -/
def listDataSize (count : Nat) : Nat → List Path → Nat
  | _, [] => 0
  | i, w :: ws => w.length + (if i < count - 1 then 1 else 0) + listDataSize count (i + 1) ws

/-- `memcpy(buffer + offset, bs, |bs|)`. -/
def copyAt (buffer : List Byte) (offset : Nat) (bs : List Byte) : List Byte :=
  buffer.take offset ++ bs ++ buffer.drop (offset + bs.length)

/-- The second loop of `build_list_buffer`: copy the names and the separators; it ends with the
last offset and the buffer. -/
def fillListData (count : Nat) : Nat → List Path → Nat → List Byte → Nat × List Byte
  | _, [], offset, buffer => (offset, buffer)
  | i, w :: ws, offset, buffer =>
    let buffer := copyAt buffer offset w
    let offset := offset + w.length
    if i < count - 1 then
      fillListData count (i + 1) ws (offset + 1) (copyAt buffer offset [newline])
    else fillListData count (i + 1) ws offset buffer

/-- The buffer that `build_list_buffer` fills for these names. -/
def listBuffer (names : List Path) : List Byte :=
  let totalDataSize := listDataSize names.length 0 names
  let buffer := List.replicate (sizeLen + totalDataSize) 0
  (fillListData names.length 0 names sizeLen (copyAt buffer 0 (sizeBytes totalDataSize))).2

/-- `build_list_buffer`; `none` is `NULL`. -/
def buildListBuffer (c : Ctx) : Option (List Byte) × Ctx :=
  let c := c.use .list
  match c.serverFiles.contents.mapM id with
  | none => (none, { c with fault := true })
  | some names =>
    let r := c.sysAlloc
    (if r.1 then some (listBuffer names) else none, r.2)

/-- Whether `server_files` can take the string that `strdup` returns. -/
def growth (c : Ctx) : Bool :=
  if c.serverFiles.full then c.script.alloc.2.alloc.1 else true

/-- `add_file_to_list`. -/
def addFileToList (c : Ctx) (name : Path) : Ctx :=
  let c := c.use (.add name c.script.alloc.1 (growth c))
  match searchName name 0 c.serverFiles.contents with
  | .found _ => c
  | .null => { c with fault := true }
  | .absent =>
    let dup := c.sysAlloc
    let element := if dup.1 then some name else none
    let grow := if c.serverFiles.full then dup.2.sysAlloc else (true, dup.2)
    { grow.2 with serverFiles := vectorPushBack c.serverFiles element grow.1 }

/-- `remove_file_from_list`. -/
def removeFileFromList (c : Ctx) (name : Path) : Ctx :=
  let c := c.use (.remove name)
  match searchName name 0 c.serverFiles.contents with
  | .found i => { c with serverFiles := vectorErase c.serverFiles i }
  | .null => { c with fault := true }
  | .absent => c

/-! ### Short replies

`execute_simple_response_write`, `prepare_and_send_response` and `start_send_list` call each
other.  The cycle has one turn: `start_send_list` asks for an ERROR reply, and in `STATE_SEND_ERROR`
it is not called again.  So the first two take it as an argument here; the equations of the source
are `executeSimpleResponseWrite_eq`, `prepareAndSendResponse_eq` and `startSendList_eq`. -/

/-- The text of a reply. -/
def responseText : Status → List Byte → List Byte
  | .ok, _ => ascii "OK\n"
  | .error, msg => ascii "ERROR\n" ++ msg ++ ascii "\n"

/-- The first part of `prepare_and_send_response`: fill the buffer and choose the state. -/
def fillResponse (c : Ctx) (status : Status) (msg : List Byte) : Ctx :=
  let text := responseText status msg
  (c.note (.reply status msg)).setClient fun k =>
    { k with
      simpleResponseSent := 0
      simpleResponseBuf := snprintf maxHeaderLen text
      simpleResponseLen := if text.length ≥ maxHeaderLen then maxHeaderLen - 1 else text.length
      state := match status with
        | .ok => .sendOk
        | .error => .sendError }

/-- The rest of the short response. -/
def simpleResponseRest (k : Client) : List Byte :=
  (k.simpleResponseBuf.drop k.simpleResponseSent).take (k.simpleResponseLen - k.simpleResponseSent)

/-- The body of `execute_simple_response_write`. -/
def executeWith (startSendList : Ctx → Ctx) (c : Ctx) : Ctx :=
  let w := c.sysWrite (simpleResponseRest c.client)
  let c := w.2
  match w.1 with
  | .eagain => c
  | .err => closeAndCleanup c
  | .wrote n =>
    let c := c.setClient fun k => { k with simpleResponseSent := k.simpleResponseSent + n }
    if c.client.simpleResponseSent = c.client.simpleResponseLen then
      match c.client.state with
      | .sendOk =>
        match c.client.requestVerb with
        | .list => startSendList c
        | .get =>
          (c.setClient fun k =>
            { k with
              simpleResponseLen := 0
              simpleResponseSent := 0
              state := .sendGetSize }).modifyEventLoop .write
        | _ => closeAndCleanup (c.setClient fun k => { k with state := .done })
      | .sendError => closeAndCleanup (c.setClient fun k => { k with state := .done })
      | _ => c
    else c.modifyEventLoop .write

/-- `start_send_list`. -/
def startSendList (c : Ctx) : Ctx :=
  let r := buildListBuffer c
  let c := r.2
  match r.1 with
  | none => executeWith id (fillResponse c .error errBadRequest)
  | some buffer =>
    (c.setClient fun k =>
      { k with
        listBuf := some buffer
        listLen := buffer.length
        listSent := 0
        state := .sendListData }).modifyEventLoop .write

/-- `execute_simple_response_write`. -/
def executeSimpleResponseWrite (c : Ctx) : Ctx := executeWith startSendList c

/-- `prepare_and_send_response`. -/
def prepareAndSendResponse (c : Ctx) (status : Status) (msg : List Byte) : Ctx :=
  executeSimpleResponseWrite (fillResponse c status msg)

/-! ### PUT -/

/-- What is left of a script's input, as a variant for the reading loops. -/
def rxWeight : List RxItem → Nat
  | [] => 0
  | .data _ bs :: rx => bs.length + 1 + rxWeight rx
  | .eof :: rx => rxWeight rx
  | _ :: rx => rxWeight rx + 1

/-- `if (n == -1)` or `if (n == 0)` in the loop of `recv_put_data`. -/
def abortUpload (c : Ctx) : Ctx := prepareAndSendResponse c.closeFile .error errBadFileSize

/-- One pass through the loop of `recv_put_data`. -/
def recvPutDataPass (c : Ctx) : Pass Ctx :=
  if c.client.bytesTransferred < c.client.expectedSize then
    let bytesToRead := min bufferSize (c.client.expectedSize - c.client.bytesTransferred)
    let r := c.sysRead bytesToRead
    let c := r.2
    match r.1 with
    | .eintr => .again c
    | .eagain => .leave c
    | .err => .ret (abortUpload c)
    | .eof | .bytes [] => .ret (abortUpload c)
    | .bytes bs =>
      match c.client.fileFd with
      | none => .ret (abortUpload c)
      | some h =>
        let w := c.sysPwrite h bs c.client.bytesTransferred
        let c := w.2
        if w.1 = some bs.length then
          .again (c.setClient fun k => { k with bytesTransferred := k.bytesTransferred + bs.length })
        else .ret (abortUpload c)
  else .leave c

/-- What `recv_put_data` does after its loop. -/
def finishUpload (c : Ctx) : Ctx :=
  if c.client.bytesTransferred = c.client.expectedSize then
    let r := c.closeFile.sysRead 1
    let c := r.2
    match r.1 with
    | .bytes (_ :: _) => prepareAndSendResponse c .error errBadFileSize
    | _ =>
      let c := addFileToList (c.note (.accept c.client.filename)) c.client.filename
      prepareAndSendResponse c .ok []
  else c

/-- `recv_put_data`. -/
def recvPutData (c : Ctx) : Ctx :=
  match exec recvPutDataPass (fun c => rxWeight c.script.rx) c with
  | .leave c => finishUpload c
  | p => p.state

/-- One pass through the loop of `recv_put_size`. -/
def recvPutSizePass (c : Ctx) : Pass Ctx :=
  if c.client.bytesTransferred < sizeLen then
    let r := c.sysRead (sizeLen - c.client.bytesTransferred)
    let c := r.2
    match r.1 with
    | .eintr => .again c
    | .eagain => .ret c
    | .err => .ret (prepareAndSendResponse c .error errBadFileSize)
    | .eof | .bytes [] => .ret (prepareAndSendResponse c .error errBadFileSize)
    | .bytes bs =>
      .again (c.setClient fun k =>
        { k with
          expectedSize := pokeSize k.expectedSize k.bytesTransferred bs
          bytesTransferred := k.bytesTransferred + bs.length })
  else .leave c

/-- What `recv_put_size` does after its loop. -/
def openUpload (c : Ctx) : Ctx :=
  let c := c.setClient fun k => { k with bytesTransferred := 0 }
  let o := c.sysOpenWrite c.filepath
  let c := o.2.setClient fun k => { k with fileFd := o.1 }
  match o.1 with
  | none => prepareAndSendResponse c .error errBadFileSize
  | some _ => recvPutData (c.setClient fun k => { k with state := .recvPutData })

/-- `recv_put_size`. -/
def recvPutSize (c : Ctx) : Ctx :=
  match exec recvPutSizePass (fun c => rxWeight c.script.rx) c with
  | .leave c => openUpload c
  | p => p.state

/-! ### GET -/

/-- `start_send_get`. -/
def startSendGet (c : Ctx) : Ctx :=
  let o := c.sysOpenRead c.filepath
  let c := o.2.setClient fun k => { k with fileFd := o.1 }
  match o.1 with
  | none => prepareAndSendResponse c .error errNoSuchFile
  | some h =>
    let st := c.sysFstat h
    let c := st.2
    match st.1 with
    | none => prepareAndSendResponse c.closeFile .error errNoSuchFile
    | some size =>
      prepareAndSendResponse
        (c.setClient fun k => { k with fileSize := size, bytesTransferred := 0 }) .ok []

/-- The first part of `send_get_size`: load the buffer unless that was done before. -/
def loadGetSize (c : Ctx) : Ctx :=
  if c.client.simpleResponseLen = 0 then
    c.setClient fun k =>
      { k with
        simpleResponseBuf := copyAt k.simpleResponseBuf 0 (sizeBytes k.fileSize)
        simpleResponseLen := sizeLen
        simpleResponseSent := 0 }
  else c

/-- `send_get_size`. -/
def sendGetSize (c : Ctx) : Ctx :=
  let c := loadGetSize c
  let w := c.sysWrite (simpleResponseRest c.client)
  let c := w.2
  match w.1 with
  | .eagain => c
  | .err => closeAndCleanup c
  | .wrote n =>
    let c := c.setClient fun k => { k with simpleResponseSent := k.simpleResponseSent + n }
    if c.client.simpleResponseSent = c.client.simpleResponseLen then
      (c.setClient fun k =>
        { k with
          state := .sendGetData
          simpleResponseLen := 0
          simpleResponseSent := 0 }).modifyEventLoop .write
    else c

/-- One pass through the loop of `send_get_data`. -/
def sendGetDataPass (c : Ctx) : Pass Ctx :=
  if c.client.bytesTransferred < c.client.fileSize then
    let readLen := min bufferSize (c.client.fileSize - c.client.bytesTransferred)
    let r := match c.client.fileFd with
      | some h => c.sysPread h readLen c.client.bytesTransferred
      | none => (none, c)
    let c := r.2
    match r.1 with
    | none | some [] => .ret (closeAndCleanup c)
    | some bs =>
      let w := c.sysWrite bs
      let c := w.2
      match w.1 with
      | .eagain => .ret c
      | .err => .ret (closeAndCleanup c)
      | .wrote n =>
        let c := c.setClient fun k => { k with bytesTransferred := k.bytesTransferred + n }
        if n < bs.length then .ret c else .again c
  else .leave c

/-- What `send_get_data` does after its loop. -/
def finishGet (c : Ctx) : Ctx :=
  if c.client.bytesTransferred = c.client.fileSize then
    closeAndCleanup (c.setClient fun k => { k with state := .done })
  else c

/-- `send_get_data`. -/
def sendGetData (c : Ctx) : Ctx :=
  match exec sendGetDataPass (fun c => c.script.tx.length) c with
  | .leave c => finishGet c
  | p => p.state

/-! ### DELETE -/

/-- `delete_request`. -/
def deleteRequest (c : Ctx) : Ctx :=
  let c := c.use (.find c.client.filename)
  match searchName c.client.filename 0 c.serverFiles.contents with
  | .null => { c with fault := true }
  | .absent => prepareAndSendResponse c .error errNoSuchFile
  | .found _ =>
    let u := c.sysUnlink c.filepath
    let c := u.2
    if u.1 then prepareAndSendResponse (removeFileFromList c c.client.filename) .ok []
    else prepareAndSendResponse c .error errNoSuchFile

/-! ### LIST -/

/-- `send_list_data`. -/
def sendListData (c : Ctx) : Ctx :=
  let rest := ((c.client.listBuf.getD []).drop c.client.listSent).take
    (c.client.listLen - c.client.listSent)
  let w := c.sysWrite rest
  let c := w.2
  match w.1 with
  | .eagain => c
  | .err => closeAndCleanup c
  | .wrote n =>
    let c := c.setClient fun k => { k with listSent := k.listSent + n }
    if c.client.listSent = c.client.listLen then
      closeAndCleanup (c.setClient fun k => { k with state := .done })
    else c

/-! ### Requests -/

/-- `strncpy(client->filename, filename, sizeof(client->filename) - 1)`. -/
def setFilename (c : Ctx) (w : Path) : Ctx := c.setClient fun k => { k with filename := w.take 255 }

/-- Set `client->request_verb`. -/
def setVerb (c : Ctx) (v : Verb) : Ctx := c.setClient fun k => { k with requestVerb := v }

/-- `parse_header_and_transition`.  The searches stop at a NUL, as `strchr` does; the NULs that
the C code puts in place of the newline and the blank delimit `line`, `verbStr` and `filename`. -/
def parseHeaderAndTransition (c : Ctx) : Ctx :=
  let header := cString c.client.headerBuf
  if newline ∉ header then c
  else
    let line := beforeChar newline header
    let verbStr := beforeChar space line
    let filename := if space ∈ line then some (afterChar space line) else none
    if verbStr = ascii "LIST" then
      let c := setVerb c .list
      match filename with
      | some _ => prepareAndSendResponse c .error errBadRequest
      | none => prepareAndSendResponse c .ok []
    else if verbStr = ascii "DELETE" then
      let c := setVerb c .delete
      match filename with
      | none => prepareAndSendResponse c .error errBadRequest
      | some w => deleteRequest (setFilename c w)
    else if verbStr = ascii "GET" then
      let c := setVerb c .get
      match filename with
      | none => prepareAndSendResponse c .error errBadRequest
      | some w => startSendGet (setFilename c w)
    else if verbStr = ascii "PUT" then
      let c := setVerb c .put
      match filename with
      | none => prepareAndSendResponse c .error errBadRequest
      | some w =>
        ((setFilename c w).setClient fun k =>
          { k with bytesTransferred := 0, state := .recvPutSize }).modifyEventLoop .read
    else prepareAndSendResponse c .error errBadRequest

/-! ### Events -/

/-- One pass through the loop of `handle_read_event`. -/
def readHeaderPass (c : Ctx) : Pass Ctx :=
  if c.client.headerLen < maxHeaderLen - 1 then
    let r := c.sysRead 1
    let c := r.2
    match r.1 with
    | .eintr => .again c
    | .eagain => .leave c
    | .err => .ret (closeAndCleanup c)
    | .eof | .bytes [] => .ret (closeAndCleanup c)
    | .bytes (b :: _) =>
      let c := c.setClient fun k =>
        { k with headerBuf := k.headerBuf ++ [b], headerLen := k.headerLen + 1 }
      if b = newline then .ret (parseHeaderAndTransition c) else .again c
  else .leave c

/-- `handle_read_event` in `STATE_RECV_HEADER`. -/
def readHeader (c : Ctx) : Ctx :=
  match exec readHeaderPass (fun c => rxWeight c.script.rx) c with
  | .leave c =>
    if c.client.headerLen ≥ maxHeaderLen - 1 then prepareAndSendResponse c .error errBadRequest
    else c
  | p => p.state

/-- `handle_read_event`. -/
def handleReadEvent (c : Ctx) : Ctx :=
  match c.client.state with
  | .recvHeader => readHeader c
  | .recvPutSize => recvPutSize c
  | .recvPutData => recvPutData c
  | _ => c

/-- `handle_write_event`. -/
def handleWriteEvent (c : Ctx) : Ctx :=
  match c.client.state with
  | .sendOk | .sendError => executeSimpleResponseWrite c
  | .sendListData => sendListData c
  | .sendGetSize => sendGetSize c
  | .sendGetData => sendGetData c
  | _ => c

end FileServer
