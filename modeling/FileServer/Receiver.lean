/-
  `handle_get` and `handle_list` of the client program `client.c`.

  A handler sends its request, reads the response from the socket, and writes the
  payload to the local file or to the standard output.  `Report` is what it prints,
  the messages of `format.c` on the standard output and those of `perror` alike; the
  local file is what its writes have taken.
-/
import FileServer.Socket

namespace FileServer

/-! ### Output -/

/-- A message to the user. -/
inductive Report
  /-- `print_connection_closed`. -/
  | connectionClosed
  /-- `print_error_message`. -/
  | errorMessage (err : List Byte)
  /-- `print_invalid_response`. -/
  | invalidResponse
  /-- `print_too_little_data`. -/
  | tooLittleData
  /-- `print_received_too_much_data`. -/
  | receivedTooMuchData
  /-- `perror`. -/
  | perror (text : String)
  deriving DecidableEq

/-- What `read_all_from_socket` reports. -/
def Reading.allErrors (r : Reading) : List Report :=
  if r.result = -1 then [.perror "read error"] else []

/-- What `read_line_from_socket` reports. -/
def Reading.lineErrors (r : Reading) : List Report :=
  if r.result = -1 then [.perror "read_line read error"] else []

/-- What `write_all_to_socket` reports. -/
def Emission.errors (w : Emission) : List Report :=
  if w.result = -1 then [.perror "write error"] else []

/-- The surroundings of a handler: what the socket takes of the request, what it brings, how the
local file and the standard output behave, and whether `malloc` succeeds where it can. -/
structure Surroundings where
  request : List SendItem
  socket : Script
  openOk : Bool
  writes : List SendItem
  mallocOk : Bool

/-- What a handler has done: its reports, and the bytes in the local file or on the standard output,
`none` where no file was opened. -/
structure ClientResult where
  reports : List Report
  output : Option (List Byte)

/-- Reports before the others. -/
def ClientResult.after (rs : List Report) (o : ClientResult) : ClientResult :=
  { o with reports := rs ++ o.reports }

/-! ### Responses -/

/-- `sizeof(status_buffer)` and `sizeof(error_buffer)`. -/
def lineBufferSize : Nat := 1024

/-- `sizeof(file_buffer)`. -/
def fileBufferSize : Nat := 4096

/-- The text that is printed of an error line: the string in the buffer, its last newline cut. -/
def errorText (r : Reading) : List Byte :=
  let last := r.result.toNat - 1
  if r.buffer[last]? = some newline then cString (r.buffer.set last 0) else cString r.buffer

/-- What the handlers do where the status is `ERROR`. -/
def reportError (s : Script) : ClientResult :=
  let r := readLineFromSocket s lineBufferSize
  .after r.lineErrors
    ⟨[if r.result > 0 then .errorMessage (errorText r) else .invalidResponse], none⟩

/-- The read behind the payload: whether it finds a byte. -/
def extraRead (s : Script) : Bool :=
  match (s.read 1).1 with
  | .bytes (_ :: _) => true
  | _ => false

/-- What the handlers do behind the payload. -/
def reportExtra (s : Script) : List Report := if extraRead s then [.receivedTooMuchData] else []

/-- What the handlers share: send the request, read the status line, and deal with every status but
`OK`; `onOk` deals with that. -/
def handle (call : RequestCall) (e : Surroundings) (onOk : Script → ClientResult) : ClientResult :=
  .after (writeAll call.count 0 e.request).errors <|
    let status := readLineFromSocket e.socket lineBufferSize
    .after status.lineErrors <|
      if status.result ≤ 0 then ⟨[.connectionClosed], none⟩
      else if cString status.buffer = ascii "ERROR\n" then reportError status.script
      else if cString status.buffer = ascii "OK\n" then onOk status.script
      else ⟨[.invalidResponse], none⟩

/-! ### GET -/

/-- The loop of `handle_get`. -/
structure Download where
  totalBytesReceived : Nat
  script : Script
  writes : List SendItem
  file : List Byte
  reports : List Report

/-- One pass through the loop of `handle_get`. -/
def downloadPass (fileSize : Nat) (d : Download) : Loop.Pass Download :=
  if d.totalBytesReceived < fileSize then
    let bytesToRead := if fileSize - d.totalBytesReceived < fileBufferSize
      then fileSize - d.totalBytesReceived else fileBufferSize
    let r := readAllFromSocket d.script bytesToRead
    let d := { d with script := r.script, reports := d.reports ++ r.allErrors }
    if r.result ≤ 0 then .ret { d with reports := d.reports ++ [.tooLittleData] }
    else
      let w := writeAll r.result.toNat 0 d.writes
      .again { d with
        totalBytesReceived := d.totalBytesReceived + r.result.toNat
        writes := w.left
        file := d.file ++ w.taken r.buffer
        reports := d.reports ++ w.errors }
  else .leave d

/-- `handle_get` behind the size field. -/
def download (fileSize : Nat) (s : Script) (writes : List SendItem) : ClientResult :=
  match Loop.exec (downloadPass fileSize) (fun d => fileSize - d.totalBytesReceived)
      ⟨0, s, writes, [], []⟩ with
  | .ret d => ⟨d.reports, some d.file⟩
  | p => ⟨p.state.reports ++ reportExtra p.state.script, some p.state.file⟩

/-- `handle_get` where the status is `OK`. -/
def receiveFile (e : Surroundings) (s : Script) : ClientResult :=
  let size := readAllFromSocket s sizeLen
  .after size.allErrors <|
    if size.result ≠ sizeLen then ⟨[.tooLittleData], none⟩
    else if e.openOk = false then ⟨[.perror "open local file failed"], none⟩
    else download (ofLeBytes size.buffer) size.script e.writes

namespace Receiver

/-- `handle_get`. -/
def handleGet (remote : Path) (e : Surroundings) : ClientResult :=
  handle (FileServer.handleGet remote) e (receiveFile e)

end Receiver

/-! ### LIST -/

/-- `malloc`: no object has more than `PTRDIFF_MAX` bytes. -/
def mallocs (e : Surroundings) (size : Nat) : Bool := e.mallocOk && decide (size < 2 ^ 63)

/-- `handle_list` where the status is `OK`. -/
def receiveList (e : Surroundings) (s : Script) : ClientResult :=
  let size := readAllFromSocket s sizeLen
  .after size.allErrors <|
    if size.result ≠ sizeLen then ⟨[.tooLittleData], some []⟩
    else
      let listSize := ofLeBytes size.buffer
      if listSize = 0 then ⟨[], some []⟩
      else if mallocs e listSize = false then ⟨[.perror "malloc failed"], some []⟩
      else
        let list := readAllFromSocket size.script listSize
        .after list.allErrors <|
          if list.result < 0 ∨ list.result ≠ listSize then ⟨[.tooLittleData], some []⟩
          else
            let w := writeAll listSize 0 e.writes
            ⟨w.errors ++ reportExtra list.script, some (w.taken list.buffer)⟩

/-- `strlen(request)` in `handle_list` is 5. -/
def listCall : RequestCall := ⟨ascii "LIST\n", 5⟩

namespace Receiver

/-- `handle_list`. -/
def handleList (e : Surroundings) : ClientResult := handle listCall e (receiveList e)

end Receiver

end FileServer
