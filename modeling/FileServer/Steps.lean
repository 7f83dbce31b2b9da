/-
  The handlers in steps.

  A handler is cut at its system calls: a `Step` is what it does from one point at
  which it can be left to the next, with what the calls in between found.  The steps
  are grouped by what they are for, so that an invariant looks only at the groups
  that matter to it.  `requestOf` is what `parse_header_and_transition` makes of a
  header as a function of its bytes.
-/
import FileServer.Handlers
import Mathlib.Logic.Relation

namespace FileServer

/-! ### Requests -/

/-- What a complete request line asks for. -/
inductive Request
  | list
  | delete (w : Path)
  | get (w : Path)
  | put (w : Path)
  /-- A line that is rejected, and the verb that was set before. -/
  | bad (v : Option Verb)
  deriving DecidableEq

/-- The request of a line, given without its newline. -/
def requestOfLine (line : List Byte) : Request :=
  let verbStr := beforeChar space line
  let filename := if space ∈ line then some (afterChar space line) else none
  if verbStr = ascii "LIST" then
    match filename with
    | some _ => .bad (some .list)
    | none => .list
  else if verbStr = ascii "DELETE" then
    match filename with
    | some w => .delete w
    | none => .bad (some .delete)
  else if verbStr = ascii "GET" then
    match filename with
    | some w => .get w
    | none => .bad (some .get)
  else if verbStr = ascii "PUT" then
    match filename with
    | some w => .put w
    | none => .bad (some .put)
  else .bad none

/-- The request that a header holds, once its line is complete. -/
def requestOf (header : List Byte) : Option Request :=
  if newline ∈ cString header then some (requestOfLine (beforeChar newline (cString header)))
  else none

namespace Request

/-- The value that `request_verb` is set to. -/
def verb : Request → Option Verb
  | list => some .list
  | delete _ => some .delete
  | get _ => some .get
  | put _ => some .put
  | bad v => v

/-- The name on the request line. -/
def name? : Request → Option Path
  | delete w | get w | put w => some w
  | _ => none

end Request

/-- Enter a request in the record. -/
def noteRequest (c : Ctx) (q : Request) : Ctx :=
  c.setClient fun k =>
    { k with
      requestVerb := q.verb.getD k.requestVerb
      filename := (q.name?.map fun w => w.take 255).getD k.filename }

/-! ### Parts of the handlers -/

/-- Store a byte of the header. -/
def storeHeader (c : Ctx) (b : Byte) : Ctx :=
  (c.sysRead 1).2.setClient fun k =>
    { k with headerBuf := k.headerBuf ++ [b], headerLen := k.headerLen + 1 }

/-- The newline of a request line has been read. -/
structure LineRead (c : Ctx) (q : Request) : Prop where
  fault : c.fault = false
  state : c.client.state = .recvHeader
  room : c.client.headerLen < maxHeaderLen - 1
  read : ∃ bs, (c.sysRead 1).1 = .bytes (newline :: bs)
  request : requestOf (c.client.headerBuf ++ [newline]) = some q

/-- The uses of the list when a request is served: DELETE begins with a search. -/
def Request.uses : Request → List ListOp → List ListOp
  | delete w, ops => ops ++ [.find (w.take 255)]
  | _, ops => ops

/-- The context in which a request is served. -/
def takeLine (c : Ctx) (q : Request) : Ctx :=
  { noteRequest (storeHeader c newline) q with uses := q.uses c.uses }

/-- Store bytes of the size field. -/
def storeSize (c : Ctx) (bs : List Byte) : Ctx :=
  (c.sysRead (sizeLen - c.client.bytesTransferred)).2.setClient fun k =>
    { k with
      expectedSize := pokeSize k.expectedSize k.bytesTransferred bs
      bytesTransferred := k.bytesTransferred + bs.length }

/-- `open` in `recv_put_size`. -/
def openUploadFile (c : Ctx) : Option Handle × Ctx :=
  let o := (c.setClient fun k => { k with bytesTransferred := 0 }).sysOpenWrite c.filepath
  (o.1, o.2.setClient fun k => { k with fileFd := o.1 })

/-- `bytes_to_read` in `recv_put_data`. -/
def bodyRoom (k : Client) : Nat := min bufferSize (k.expectedSize - k.bytesTransferred)

/-- `read` and `pwrite` in `recv_put_data`. -/
def writeBody (c : Ctx) (h : Handle) (bs : List Byte) : Option Nat × Ctx :=
  (c.sysRead (bodyRoom c.client)).2.sysPwrite h bs c.client.bytesTransferred

/-- The read behind the last byte of an upload. -/
def readExtra (c : Ctx) : ReadResult × Ctx := c.closeFile.sysRead 1

/-- Accept an upload. -/
def acceptUpload (c : Ctx) : Ctx :=
  let c := (readExtra c).2
  addFileToList (c.note (.accept c.client.filename)) c.client.filename

/-- `open` in `start_send_get`. -/
def openDownload (c : Ctx) : Option Handle × Ctx :=
  let o := c.sysOpenRead c.filepath
  (o.1, o.2.setClient fun k => { k with fileFd := o.1 })

/-- The write of a short response. -/
def writeLine (c : Ctx) : WriteResult × Ctx := c.sysWrite (simpleResponseRest c.client)

/-- A short response after `n` more bytes of it were taken. -/
def sentLine (c : Ctx) (n : Nat) : Ctx :=
  (writeLine c).2.setClient fun k => { k with simpleResponseSent := k.simpleResponseSent + n }

/-- The whole short response is sent. -/
structure LineSent (c : Ctx) (n : Nat) : Prop where
  write : (writeLine c).1 = .wrote n
  all : c.client.simpleResponseSent + n = c.client.simpleResponseLen

/-- `read_len` in `send_get_data`. -/
def dataRoom (k : Client) : Nat := min bufferSize (k.fileSize - k.bytesTransferred)

/-- `pread` in `send_get_data`. -/
def readData (c : Ctx) (h : Handle) : Option (List Byte) × Ctx :=
  c.sysPread h (dataRoom c.client) c.client.bytesTransferred

/-- The rest of the LIST payload. -/
def listRest (k : Client) : List Byte :=
  ((k.listBuf.getD []).drop k.listSent).take (k.listLen - k.listSent)

/-- The write of a LIST payload. -/
def writeList (c : Ctx) : WriteResult × Ctx := c.sysWrite (listRest c.client)

/-- A LIST payload after `n` more bytes of it were taken. -/
def sentList (c : Ctx) (n : Nat) : Ctx :=
  (writeList c).2.setClient fun k => { k with listSent := k.listSent + n }

/-- Enter a state. -/
def setState (c : Ctx) (st : ConnState) : Ctx := c.setClient fun k => { k with state := st }

/-! ### Steps -/

/-- A read found nothing and will find nothing. -/
def ReadResult.Ended (r : ReadResult) : Prop := r = .err ∨ r = .eof ∨ r = .bytes []

/-- The reads of a request, and how many bytes each asks for. -/
inductive Reads (c : Ctx) : Nat → Prop
  | header (hs : c.client.state = .recvHeader) (hlen : c.client.headerLen < maxHeaderLen - 1) :
      Reads c 1
  | size (hs : c.client.state = .recvPutSize) (hlen : c.client.bytesTransferred < sizeLen) :
      Reads c (sizeLen - c.client.bytesTransferred)
  | body (hs : c.client.state = .recvPutData)
      (hlen : c.client.bytesTransferred < c.client.expectedSize) : Reads c (bodyRoom c.client)

/-- A connection that sends receives nothing. -/
def ConnState.Sending (s : ConnState) : Prop :=
  s = .sendOk ∨ s = .sendError ∨ s = .sendGetSize ∨ s = .sendGetData ∨ s = .sendListData

/-- Steps that change the script and the log only. -/
inductive Quiet (c : Ctx) : Ctx → Prop
  | read {n : Nat} (hn : Reads c n) (h : (c.sysRead n).1 = .eagain ∨ (c.sysRead n).1 = .eintr) :
      Quiet c (c.sysRead n).2
  | write {bs : List Byte} (h : (c.sysWrite bs).1 = .eagain) (hs : c.client.state.Sending) :
      Quiet c (c.sysWrite bs).2
  | pread (h : Handle) (count off : Nat) : Quiet c (c.sysPread h count off).2

/-- Bytes of a request are received and stored. -/
inductive Receive (c : Ctx) : Ctx → Prop
  | header {b : Byte} {bs : List Byte} (hf : c.fault = false)
      (hs : c.client.state = .recvHeader) (hlen : c.client.headerLen < maxHeaderLen - 1)
      (hr : (c.sysRead 1).1 = .bytes (b :: bs))
      (hb : b ≠ newline ∨ requestOf (c.client.headerBuf ++ [b]) = none) :
      Receive c (storeHeader c b)
  | size {bs : List Byte} (hs : c.client.state = .recvPutSize)
      (hlen : c.client.bytesTransferred < sizeLen)
      (hr : (c.sysRead (sizeLen - c.client.bytesTransferred)).1 = .bytes bs) (hne : bs ≠ []) :
      Receive c (storeSize c bs)
  | body {bs : List Byte} {h : Handle} (hs : c.client.state = .recvPutData)
      (hlen : c.client.bytesTransferred < c.client.expectedSize)
      (hr : (c.sysRead (bodyRoom c.client)).1 = .bytes bs) (hne : bs ≠ [])
      (hh : c.client.fileFd = some h) (hw : (writeBody c h bs).1 = some bs.length) :
      Receive c ((writeBody c h bs).2.setClient fun k =>
        { k with bytesTransferred := k.bytesTransferred + bs.length })

/-- A PUT line is complete, or its file is opened. -/
inductive Begin (c : Ctx) : Ctx → Prop
  | put {w : Path} (hl : LineRead c (.put w)) :
      Begin c (((takeLine c (.put w)).setClient fun k =>
        { k with bytesTransferred := 0, state := .recvPutSize }).modifyEventLoop .read)
  | upload {h : Handle} (hs : c.client.state = .recvPutSize)
      (hlen : ¬ c.client.bytesTransferred < sizeLen) (ho : (openUploadFile c).1 = some h) :
      Begin c (setState (openUploadFile c).2 .recvPutData)

/-- A reply is chosen: the context in which `prepare_and_send_response` is called, and its
arguments. -/
inductive Choose (c : Ctx) : Ctx → Status → List Byte → Prop
  | bad {v : Option Verb} (hl : LineRead c (.bad v)) :
      Choose c (takeLine c (.bad v)) .error errBadRequest
  | tooLong (hs : c.client.state = .recvHeader) (hlen : c.client.headerLen ≥ maxHeaderLen - 1) :
      Choose c c .error errBadRequest
  | list (hl : LineRead c .list) : Choose c (takeLine c .list) .ok []
  | deleteAbsent {w : Path} (hl : LineRead c (.delete w))
      (hf : searchName (w.take 255) 0 c.serverFiles.contents = .absent) :
      Choose c (takeLine c (.delete w)) .error errNoSuchFile
  | deleteFailed {w : Path} {i : Nat} (hl : LineRead c (.delete w))
      (hf : searchName (w.take 255) 0 c.serverFiles.contents = .found i)
      (hu : ((takeLine c (.delete w)).sysUnlink (takeLine c (.delete w)).filepath).1 = false) :
      Choose c ((takeLine c (.delete w)).sysUnlink (takeLine c (.delete w)).filepath).2
        .error errNoSuchFile
  | deleted {w : Path} {i : Nat} (hl : LineRead c (.delete w))
      (hf : searchName (w.take 255) 0 c.serverFiles.contents = .found i)
      (hu : ((takeLine c (.delete w)).sysUnlink (takeLine c (.delete w)).filepath).1 = true) :
      Choose c (removeFileFromList
        ((takeLine c (.delete w)).sysUnlink (takeLine c (.delete w)).filepath).2 (w.take 255))
        .ok []
  | getMissing {w : Path} (hl : LineRead c (.get w))
      (ho : (openDownload (takeLine c (.get w))).1 = none) :
      Choose c (openDownload (takeLine c (.get w))).2 .error errNoSuchFile
  | getFailed {w : Path} {h : Handle} (hl : LineRead c (.get w))
      (ho : (openDownload (takeLine c (.get w))).1 = some h)
      (hf : ((openDownload (takeLine c (.get w))).2.sysFstat h).1 = none) :
      Choose c ((openDownload (takeLine c (.get w))).2.sysFstat h).2.closeFile .error errNoSuchFile
  | getOpened {w : Path} {h : Handle} {size : Nat} (hl : LineRead c (.get w))
      (ho : (openDownload (takeLine c (.get w))).1 = some h)
      (hf : ((openDownload (takeLine c (.get w))).2.sysFstat h).1 = some size) :
      Choose c (((openDownload (takeLine c (.get w))).2.sysFstat h).2.setClient fun k =>
        { k with fileSize := size, bytesTransferred := 0 }) .ok []
  | sizeCut (hs : c.client.state = .recvPutSize) (hlen : c.client.bytesTransferred < sizeLen)
      (hr : (c.sysRead (sizeLen - c.client.bytesTransferred)).1.Ended) :
      Choose c (c.sysRead (sizeLen - c.client.bytesTransferred)).2 .error errBadFileSize
  | openFailed (hs : c.client.state = .recvPutSize)
      (hlen : ¬ c.client.bytesTransferred < sizeLen) (ho : (openUploadFile c).1 = none) :
      Choose c (openUploadFile c).2 .error errBadFileSize
  | bodyCut (hs : c.client.state = .recvPutData)
      (hlen : c.client.bytesTransferred < c.client.expectedSize)
      (hr : (c.sysRead (bodyRoom c.client)).1.Ended) :
      Choose c (c.sysRead (bodyRoom c.client)).2.closeFile .error errBadFileSize
  | noFile {bs : List Byte} (hs : c.client.state = .recvPutData)
      (hlen : c.client.bytesTransferred < c.client.expectedSize)
      (hr : (c.sysRead (bodyRoom c.client)).1 = .bytes bs) (hh : c.client.fileFd = none) :
      Choose c (c.sysRead (bodyRoom c.client)).2.closeFile .error errBadFileSize
  | bodyFailed {bs : List Byte} {h : Handle} (hs : c.client.state = .recvPutData)
      (hlen : c.client.bytesTransferred < c.client.expectedSize)
      (hr : (c.sysRead (bodyRoom c.client)).1 = .bytes bs) (hne : bs ≠ [])
      (hh : c.client.fileFd = some h) (hw : (writeBody c h bs).1 ≠ some bs.length) :
      Choose c (writeBody c h bs).2.closeFile .error errBadFileSize
  | extraByte {b : Byte} {bs : List Byte} (hs : c.client.state = .recvPutData)
      (hlen : c.client.bytesTransferred = c.client.expectedSize)
      (hr : (readExtra c).1 = .bytes (b :: bs)) :
      Choose c (readExtra c).2 .error errBadFileSize
  | accepted (hs : c.client.state = .recvPutData)
      (hlen : c.client.bytesTransferred = c.client.expectedSize)
      (hr : ∀ b bs, (readExtra c).1 ≠ .bytes (b :: bs)) : Choose c (acceptUpload c) .ok []
  | listNoMemory {n : Nat} (hs : c.client.state = .sendOk) (hv : c.client.requestVerb = .list)
      (hn : LineSent c n) (hb : (buildListBuffer (sentLine c n)).1 = none) :
      Choose c (buildListBuffer (sentLine c n)).2 .error errBadRequest

/-- Bytes of a reply are sent, without closing. -/
inductive Send (c : Ctx) : Ctx → Prop
  | linePart {n : Nat} (hs : c.client.state = .sendOk ∨ c.client.state = .sendError)
      (hw : (writeLine c).1 = .wrote n)
      (hne : c.client.simpleResponseSent + n ≠ c.client.simpleResponseLen) :
      Send c ((sentLine c n).modifyEventLoop .write)
  | lineGet {n : Nat} (hs : c.client.state = .sendOk) (hv : c.client.requestVerb = .get)
      (hn : LineSent c n) :
      Send c (((sentLine c n).setClient fun k =>
        { k with
          simpleResponseLen := 0
          simpleResponseSent := 0
          state := .sendGetSize }).modifyEventLoop .write)
  | lineList {n : Nat} {buffer : List Byte} (hs : c.client.state = .sendOk)
      (hv : c.client.requestVerb = .list) (hn : LineSent c n)
      (hb : (buildListBuffer (sentLine c n)).1 = some buffer) :
      Send c (((buildListBuffer (sentLine c n)).2.setClient fun k =>
        { k with
          listBuf := some buffer
          listLen := buffer.length
          listSent := 0
          state := .sendListData }).modifyEventLoop .write)
  | loadSize (hs : c.client.state = .sendGetSize) (hl : c.client.simpleResponseLen = 0) :
      Send c (loadGetSize c)
  | sizePart {n : Nat} (hs : c.client.state = .sendGetSize) (hl : c.client.simpleResponseLen ≠ 0)
      (hw : (writeLine c).1 = .wrote n)
      (hne : c.client.simpleResponseSent + n ≠ c.client.simpleResponseLen) :
      Send c (sentLine c n)
  | sizeAll {n : Nat} (hs : c.client.state = .sendGetSize) (hl : c.client.simpleResponseLen ≠ 0)
      (hn : LineSent c n) :
      Send c (((sentLine c n).setClient fun k =>
        { k with
          state := .sendGetData
          simpleResponseLen := 0
          simpleResponseSent := 0 }).modifyEventLoop .write)
  | data {h : Handle} {bs : List Byte} {n : Nat} (hs : c.client.state = .sendGetData)
      (hlen : c.client.bytesTransferred < c.client.fileSize) (hh : c.client.fileFd = some h)
      (hp : (readData c h).1 = some bs) (hne : bs ≠ [])
      (hw : ((readData c h).2.sysWrite bs).1 = .wrote n) :
      Send c (((readData c h).2.sysWrite bs).2.setClient fun k =>
        { k with bytesTransferred := k.bytesTransferred + n })
  | listPart {n : Nat} (hs : c.client.state = .sendListData) (hw : (writeList c).1 = .wrote n)
      (hne : c.client.listSent + n ≠ c.client.listLen) : Send c (sentList c n)

/-- `close_and_cleanup` is called, in the second context. -/
inductive Close (c : Ctx) : Ctx → Prop
  | header (hs : c.client.state = .recvHeader) (hlen : c.client.headerLen < maxHeaderLen - 1)
      (hr : (c.sysRead 1).1.Ended) : Close c (c.sysRead 1).2
  | line (hs : c.client.state = .sendOk ∨ c.client.state = .sendError)
      (hw : (writeLine c).1 = .err) : Close c (writeLine c).2
  | replied {n : Nat}
      (hs : c.client.state = .sendError ∨ c.client.state = .sendOk ∧
        c.client.requestVerb ≠ .get ∧ c.client.requestVerb ≠ .list)
      (hn : LineSent c n) : Close c (setState (sentLine c n) .done)
  | size (hs : c.client.state = .sendGetSize) (hl : c.client.simpleResponseLen ≠ 0)
      (hw : (writeLine c).1 = .err) : Close c (writeLine c).2
  | noFile (hs : c.client.state = .sendGetData)
      (hlen : c.client.bytesTransferred < c.client.fileSize) (hh : c.client.fileFd = none) :
      Close c c
  | pread {h : Handle} (hs : c.client.state = .sendGetData)
      (hlen : c.client.bytesTransferred < c.client.fileSize) (hh : c.client.fileFd = some h)
      (hp : (readData c h).1 = none ∨ (readData c h).1 = some []) : Close c (readData c h).2
  | data {h : Handle} {bs : List Byte} (hs : c.client.state = .sendGetData)
      (hlen : c.client.bytesTransferred < c.client.fileSize) (hh : c.client.fileFd = some h)
      (hp : (readData c h).1 = some bs) (hne : bs ≠ [])
      (hw : ((readData c h).2.sysWrite bs).1 = .err) : Close c ((readData c h).2.sysWrite bs).2
  | got (hs : c.client.state = .sendGetData)
      (hlen : c.client.bytesTransferred = c.client.fileSize) : Close c (setState c .done)
  | list (hs : c.client.state = .sendListData) (hw : (writeList c).1 = .err) :
      Close c (writeList c).2
  | listed {n : Nat} (hs : c.client.state = .sendListData) (hw : (writeList c).1 = .wrote n)
      (hall : c.client.listSent + n = c.client.listLen) : Close c (setState (sentList c n) .done)

/-- One step of a handler. -/
inductive Step (c : Ctx) : Ctx → Prop
  | quiet {c' : Ctx} (h : Quiet c c') : Step c c'
  | receive {c' : Ctx} (h : Receive c c') : Step c c'
  | begin {c' : Ctx} (h : Begin c c') : Step c c'
  | choose {c' : Ctx} {st : Status} {msg : List Byte} (h : Choose c c' st msg) :
      Step c (fillResponse c' st msg)
  | send {c' : Ctx} (h : Send c c') : Step c c'
  | close {k : Ctx} (h : Close c k) : Step c (closeAndCleanup k)
  /-- `delete_request` comes to a `NULL` element. -/
  | fault {w : Path} (hl : LineRead c (.delete w))
      (hf : searchName (w.take 255) 0 c.serverFiles.contents = .null) :
      Step c { takeLine c (.delete w) with fault := true }

/-- One step on a connection that is not destroyed. -/
def LiveStep (c c' : Ctx) : Prop := c.freed = false ∧ Step c c'

/-- What a handler does. -/
abbrev Steps : Ctx → Ctx → Prop := Relation.ReflTransGen LiveStep

end FileServer
