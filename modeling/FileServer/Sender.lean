/-
  The request lines of the client program `client.c`.

  `handle_get`, `handle_put` and `handle_delete` format a line into a buffer of 1024
  bytes and hand `write_all_to_socket` the value that `snprintf` returned, which is
  the length of the whole text.  `mem` is the memory from the start of the buffer on;
  only the characters that `snprintf` stored are known of it.
-/
import FileServer.Client

namespace FileServer

/-! ### Formatting -/

/-- `sizeof(request_buffer)`. -/
def requestBufferSize : Nat := 1024

/-- The text of the format `"GET %s\n"`, with the word of the verb in place of `GET`. -/
def requestText (verbStr : List Byte) (remote : Path) : List Byte :=
  verbStr ++ [space] ++ remote ++ [newline]

/-- What `snprintf` returns for a text: its length, or `-1` where that is no `int`. -/
def snprintfReturn (text : List Byte) : Int :=
  if text.length < 2 ^ 31 then text.length else -1

/-- The conversion of an `int` to `size_t`. -/
def toSize (n : Int) : Nat := (n % 2 ^ 64).toNat

/-- A call `write_all_to_socket(socket, request_buffer, count)`, with the characters that `snprintf`
stored in the buffer before it. -/
structure RequestCall where
  stored : List Byte
  count : Nat

/-- The request of a verb that takes a name. -/
def requestCall (verbStr : List Byte) (remote : Path) : RequestCall where
  stored := snprintf requestBufferSize (requestText verbStr remote)
  count := toSize (snprintfReturn (requestText verbStr remote))

/-- The request in `handle_get`. -/
def handleGet (remote : Path) : RequestCall := requestCall (ascii "GET") remote

/-- The request in `handle_put`. -/
def handlePut (remote : Path) : RequestCall := requestCall (ascii "PUT") remote

/-- The request in `handle_delete`. -/
def handleDelete (remote : Path) : RequestCall := requestCall (ascii "DELETE") remote

/-! ### Writing -/

/-- What the next `write` of the client meets, as long as the peer has not closed its socket:
`client.c` does not ignore `SIGPIPE`, so a write that finds `EPIPE` ends the client. -/
inductive SendItem
  /-- It takes at most `n` bytes. -/
  | took (n : Nat)
  | eintr
  /-- It fails with another error. -/
  | err
  deriving DecidableEq

/-- A call `write(socket, buffer + start, count)`, and how many bytes it took. -/
structure SocketWrite where
  start : Nat
  count : Nat
  taken : Nat
  deriving DecidableEq

/-- The loop of `write_all_to_socket` from `total_written` on.  Where the items are used up, a write
takes all it is given. -/
def writeAllFrom (count : Nat) : Nat → List SendItem → List SocketWrite
  | total, items =>
    if total < count then
      match items with
      | [] => [⟨total, count - total, count - total⟩]
      | .took n :: items =>
        ⟨total, count - total, min n (count - total)⟩ ::
          writeAllFrom count (total + min n (count - total)) items
      | .eintr :: items => ⟨total, count - total, 0⟩ :: writeAllFrom count total items
      | .err :: _ => [⟨total, count - total, 0⟩]
    else []

/-- `write_all_to_socket`. -/
def writeAllToSocket (count : Nat) (items : List SendItem) : List SocketWrite :=
  writeAllFrom count 0 items

/-- The bytes of a range of memory. -/
def bytesAt (mem : Nat → Byte) (start count : Nat) : List Byte :=
  (List.range count).map fun i => mem (start + i)

/-- The bytes that some writes have taken from a memory. -/
def takenFrom (mem : Nat → Byte) (writes : List SocketWrite) : List Byte :=
  writes.flatMap fun w => bytesAt mem w.start w.taken

/-- A memory starts with a text. -/
def Holds (mem : Nat → Byte) (text : List Byte) : Prop := bytesAt mem 0 text.length = text

end FileServer
