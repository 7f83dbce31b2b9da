/-
  `handle_put` and `handle_delete` of the client program `client.c`.

  `handle_put` sends its request line, the size that `stat` gave, and what `fread`
  brings of the local file, and goes on where a write fails.  Both handlers read the
  status of the response in one way, which is not that of `handle_get`: `OK` is looked
  for first.  `mem` is the memory from the start of `request_buffer` on.
-/
import FileServer.Receiver

namespace FileServer

/-! ### The local file -/

/-- A file that `fopen` opened: the bytes that are left of it, and how many of them the next calls of
`fread` bring at most.  Where `cuts` is used up, only the end of the file cuts a call short. -/
structure FileStream where
  content : List Byte
  cuts : List Nat

/-- `fread` of at most `count` bytes. -/
def FileStream.fread (f : FileStream) (count : Nat) : List Byte × FileStream :=
  match f.cuts with
  | [] => (f.content.take count, { f with content := f.content.drop count })
  | n :: cuts => (f.content.take (min n count), ⟨f.content.drop (min n count), cuts⟩)

/-- The local file of an upload. -/
structure LocalFile where
  /-- Whether `fopen` succeeds. -/
  opens : Bool
  /-- `st_size`, `none` where `stat` fails. -/
  size : Option Nat
  stream : FileStream

/-- `get_file_size`: where `stat` fails, `-1` as a `size_t`. -/
def getFileSize (file : LocalFile) : Nat := file.size.getD (2 ^ 64 - 1)

/-! ### Messages -/

/-- A message of a handler to the user. -/
inductive Message
  /-- `print_success`. -/
  | success
  | report (r : Report)
  deriving DecidableEq

/-- What `get_file_size` reports. -/
def LocalFile.sizeErrors (file : LocalFile) : List Report :=
  if file.size = none then [.perror "stat error"] else []

/-- What `handle_put` and `handle_delete` make of the response. -/
def reportStatus (s : Script) : List Message :=
  let status := readLineFromSocket s lineBufferSize
  status.lineErrors.map .report ++
    if status.result ≤ 0 then [.report .connectionClosed]
    else if cString status.buffer = ascii "OK\n" then [.success]
    else if cString status.buffer = ascii "ERROR\n" then
      (reportError status.script).reports.map .report
    else [.report .invalidResponse]

/-- A request and its outcome: the bytes that the socket took, and what the handler prints. -/
structure Exchange where
  sent : List Byte
  messages : List Message

/-! ### PUT -/

/-- `sizeof(file_chunk)`. -/
def fileChunkSize : Nat := 4096

/-- The loop of `handle_put`. -/
structure Transfer where
  stream : FileStream
  request : List SendItem
  sent : List Byte
  reports : List Report

/-- One pass through the loop of `handle_put`.  What `write_all_to_socket` returns is not looked at,
so the loop goes on behind a failed write, unless that was one to a closed peer (`SendItem`). -/
def transferPass (t : Transfer) : Loop.Pass Transfer :=
  let chunk := t.stream.fread fileChunkSize
  if 0 < chunk.1.length then
    let w := writeAll chunk.1.length 0 t.request
    .again
      { stream := chunk.2
        request := w.left
        sent := t.sent ++ w.taken chunk.1
        reports := t.reports ++ w.errors }
  else .leave { t with stream := chunk.2 }

/-- The request of `handle_put`. -/
def transfer (mem : Nat → Byte) (remote : Path) (file : LocalFile) (request : List SendItem) :
    Transfer :=
  let call := handlePut remote
  let line := writeAll call.count 0 request
  let size := sizeBytes (getFileSize file)
  let field := writeAll sizeLen 0 line.left
  (Loop.exec transferPass (fun t => t.stream.content.length)
    { stream := file.stream
      request := field.left
      sent := takenFrom mem line.writes ++ field.taken size
      reports := file.sizeErrors ++ line.errors ++ field.errors }).state

namespace Uploader

/-- `handle_put`. -/
def handlePut (mem : Nat → Byte) (remote : Path) (file : LocalFile) (e : Surroundings) :
    Exchange :=
  if file.opens = false then ⟨[], [.report (.perror "Failed to open local file")]⟩
  else
    let t := transfer mem remote file e.request
    ⟨t.sent, t.reports.map .report ++ reportStatus e.socket⟩

/-! ### DELETE -/

/-- `handle_delete`. -/
def handleDelete (mem : Nat → Byte) (remote : Path) (e : Surroundings) : Exchange :=
  let call := FileServer.handleDelete remote
  let line := writeAll call.count 0 e.request
  ⟨takenFrom mem line.writes, line.errors.map .report ++ reportStatus e.socket⟩

end Uploader

end FileServer
