/-
  Bytes, C strings and the raw `size_t` field of the wire protocol.

  Text and file contents are lists of bytes.  A C string is the part of a buffer
  before its first NUL; the string functions of the C library that the server
  uses are given on lists.  A `size_t` travels as its eight bytes in memory
  order, least significant byte first.
-/
import Mathlib.Data.List.Basic
import Mathlib.Tactic.Linarith

namespace FileServer

/-- A byte of a file, a socket or a buffer. -/
abbrev Byte := UInt8

/-! ### Characters and literals -/

/-- The newline that ends a request line, `'\n'`. -/
def newline : Byte := 10

/-- The blank between verb and filename, `' '`. -/
def space : Byte := 32

/-- The separator of path components, `'/'`. -/
def slash : Byte := 47

/-- The dot of the path components `.` and `..`. -/
def dot : Byte := 46

/-- The bytes of an ASCII literal of the source. -/
def ascii (s : String) : List Byte := s.toList.map fun c => UInt8.ofNat c.toNat

/-! ### C strings -/

/-- The C string that starts a buffer: the bytes before the first NUL. -/
def cString (buf : List Byte) : List Byte := buf.takeWhile (· ≠ 0)

/-- What precedes the first `c`, where `strchr` found one. -/
def beforeChar (c : Byte) (s : List Byte) : List Byte := s.takeWhile (· ≠ c)

/-- What follows the first `c`, where `strchr` found one. -/
def afterChar (c : Byte) (s : List Byte) : List Byte := (s.dropWhile (· ≠ c)).tail

/-- What `snprintf` leaves in a buffer of `size` bytes (without the final NUL). -/
def snprintf (size : Nat) (s : List Byte) : List Byte := s.take (size - 1)

/-! ### The `size_t` field -/

/-- `sizeof(size_t)`. -/
def sizeLen : Nat := 8

/-- The `k` low bytes of `n`, least significant first. -/
def leBytes : Nat → Nat → List Byte
  | 0, _ => []
  | k + 1, n => UInt8.ofNat (n % 256) :: leBytes k (n / 256)

/-- The number whose bytes, least significant first, are `bs`. -/
def ofLeBytes : List Byte → Nat
  | [] => 0
  | b :: bs => b.toNat + 256 * ofLeBytes bs

/-- The eight bytes of a `size_t`. -/
def sizeBytes (n : Nat) : List Byte := leBytes sizeLen n

/-- The value of a `size_t` after `bs` was stored at byte `off` of its memory. -/
def pokeSize (n off : Nat) (bs : List Byte) : Nat :=
  ofLeBytes ((sizeBytes n).take off ++ bs ++ (sizeBytes n).drop (off + bs.length))

@[simp] theorem length_leBytes (k n : Nat) : (leBytes k n).length = k := by
  induction k generalizing n with
  | zero => rfl
  | succ k ih => simp [leBytes, ih]

@[simp] theorem length_sizeBytes (n : Nat) : (sizeBytes n).length = 8 := length_leBytes 8 n

theorem ofLeBytes_lt (bs : List Byte) : ofLeBytes bs < 256 ^ bs.length := by
  induction bs with
  | nil => simp [ofLeBytes]
  | cons b bs ih =>
    have hb : b.toNat < 256 := b.toNat_lt
    rw [ofLeBytes, List.length_cons, pow_succ]
    omega

/-- Decoding is a left inverse of encoding, for the numbers that fit. -/
theorem ofLeBytes_leBytes (k n : Nat) (h : n < 256 ^ k) : ofLeBytes (leBytes k n) = n := by
  induction k generalizing n with
  | zero => simp only [pow_zero, Nat.lt_one_iff] at h; simp [leBytes, ofLeBytes, h]
  | succ k ih =>
    have hdiv : n / 256 < 256 ^ k := by
      rw [Nat.div_lt_iff_lt_mul (by norm_num), ← pow_succ]; exact h
    rw [leBytes, ofLeBytes, ih _ hdiv, UInt8.toNat_ofNat']
    omega

/-- Encoding is a left inverse of decoding. -/
theorem leBytes_ofLeBytes (bs : List Byte) : leBytes bs.length (ofLeBytes bs) = bs := by
  induction bs with
  | nil => rfl
  | cons b bs ih =>
    have hb : b.toNat < 256 := b.toNat_lt
    have hmod : (b.toNat + 256 * ofLeBytes bs) % 256 = b.toNat := by omega
    have hdiv : (b.toNat + 256 * ofLeBytes bs) / 256 = ofLeBytes bs := by omega
    rw [List.length_cons, leBytes, ofLeBytes, hmod, hdiv, ih, UInt8.ofNat_toNat]

theorem sizeBytes_ofLeBytes {bs : List Byte} (h : bs.length = 8) :
    sizeBytes (ofLeBytes bs) = bs := by
  have := leBytes_ofLeBytes bs
  rwa [h] at this

theorem ofLeBytes_sizeBytes {n : Nat} (h : n < 2 ^ 64) : ofLeBytes (sizeBytes n) = n :=
  ofLeBytes_leBytes 8 n (by norm_num at h ⊢; exact h)

theorem length_pokeSize_bytes {n off : Nat} {bs : List Byte} (h : off + bs.length ≤ 8) :
    ((sizeBytes n).take off ++ bs ++ (sizeBytes n).drop (off + bs.length)).length = 8 := by
  simp only [List.length_append, List.length_take, length_sizeBytes, List.length_drop]; omega

theorem pokeSize_lt {n off : Nat} {bs : List Byte} (h : off + bs.length ≤ 8) :
    pokeSize n off bs < 2 ^ 64 := by
  have hlt := ofLeBytes_lt ((sizeBytes n).take off ++ bs ++ (sizeBytes n).drop (off + bs.length))
  rw [length_pokeSize_bytes h] at hlt
  exact hlt.trans_eq (by norm_num)

/-- Storing `bs` just behind `off` bytes that are already in place leaves those in place and adds
`bs` to them. -/
theorem take_sizeBytes_pokeSize (n off : Nat) (bs : List Byte) (h : off + bs.length ≤ 8) :
    (sizeBytes (pokeSize n off bs)).take (off + bs.length) = (sizeBytes n).take off ++ bs := by
  rw [pokeSize, sizeBytes_ofLeBytes (length_pokeSize_bytes h)]
  exact List.take_left' (by simp only [List.length_append, List.length_take, length_sizeBytes]; omega)

end FileServer
