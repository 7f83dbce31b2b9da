/-
  The loops of `common.c`: `read_all_from_socket`, `read_line_from_socket` and
  `write_all_to_socket`.

  What the reads of a socket find is the `rx` of a `Script`; a read that would find
  nothing yet (`EAGAIN`) is an error to these functions.  The counts are `ssize_t` in
  the source: a buffer has fewer than `2 ^ 63` bytes, and a line buffer at least one.
-/
import FileServer.Handlers
import FileServer.Sender

namespace FileServer

open Loop

/-! ### Reading -/

/-- A read loop: the bytes stored in its buffer, what it returns, and the input behind it. -/
structure Reading where
  buffer : List Byte
  result : Int
  script : Script

/-- One pass through the loop of `read_all_from_socket`. -/
def readAllPass (count : Nat) (r : Reading) : Pass Reading :=
  if r.buffer.length < count then
    let n := r.script.read (count - r.buffer.length)
    let r := { r with script := n.2 }
    match n.1 with
    | .eintr => .again r
    | .eagain => .ret { r with result := -1 }
    | .err => .ret { r with result := -1 }
    | .eof => .ret { r with result := r.buffer.length }
    | .bytes [] => .ret { r with result := r.buffer.length }
    | .bytes (b :: bs) => .again { r with buffer := r.buffer ++ b :: bs }
  else .leave r

/-- `read_all_from_socket`. -/
def readAllFromSocket (s : Script) (count : Nat) : Reading :=
  match exec (readAllPass count) (fun r => rxWeight r.script.rx) ⟨[], 0, s⟩ with
  | .ret r => r
  | p => { p.state with result := p.state.buffer.length }

/-- One pass through the loop of `read_line_from_socket`. -/
def readLinePass (size : Nat) (r : Reading) : Pass Reading :=
  if r.buffer.length < size - 1 then
    let n := r.script.read 1
    let r := { r with script := n.2 }
    match n.1 with
    | .eintr => .again r
    | .eagain => .ret { r with result := -1 }
    | .err => .ret { r with result := -1 }
    | .eof => if r.buffer.length = 0 then .ret { r with result := 0 } else .leave r
    | .bytes [] => if r.buffer.length = 0 then .ret { r with result := 0 } else .leave r
    | .bytes (c :: _) =>
      let r := { r with buffer := r.buffer ++ [c] }
      if c = newline then .leave r else .again r
  else .leave r

/-- `read_line_from_socket`: behind its loop it stores a NUL. -/
def readLineFromSocket (s : Script) (size : Nat) : Reading :=
  match exec (readLinePass size) (fun r => rxWeight r.script.rx) ⟨[], 0, s⟩ with
  | .ret r => r
  | p => { p.state with
      buffer := p.state.buffer ++ [0]
      result := p.state.buffer.length }

/-! ### Emission -/

/-- A write loop: its writes, what it returns, and what later writes will meet. -/
structure Emission where
  writes : List SocketWrite
  result : Int
  left : List SendItem

/-- A write before the others. -/
def Emission.after (w : SocketWrite) (x : Emission) : Emission := { x with writes := w :: x.writes }

/-- The loop of `write_all_to_socket` from `total_written` on, with what it returns. -/
def writeAll (count : Nat) : Nat → List SendItem → Emission
  | total, items =>
    if total < count then
      match items with
      | [] => ⟨[⟨total, count - total, count - total⟩], count, []⟩
      | .took n :: items =>
        (writeAll count (total + min n (count - total)) items).after
          ⟨total, count - total, min n (count - total)⟩
      | .eintr :: items => (writeAll count total items).after ⟨total, count - total, 0⟩
      | .err :: items => ⟨[⟨total, count - total, 0⟩], -1, items⟩
    else ⟨[], total, items⟩

/-- The memory that a buffer with these bytes starts. -/
def memoryOf (bytes : List Byte) : Nat → Byte := fun i => bytes.getD i 0

/-- The bytes that `write_all_to_socket` gets out of a buffer. -/
def Emission.taken (w : Emission) (bytes : List Byte) : List Byte :=
  takenFrom (memoryOf bytes) w.writes

end FileServer
