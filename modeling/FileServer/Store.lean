/-
  What the server is for: an ordered map from names to byte strings.

  `Store` is the map and `Store.serve` what one request asks of it, as a client would
  put it; nothing here is about connections or files.  `Op.Sends` gives the bytes that
  stand for a request, and `Op.Sends.asks` that the server parses them as that request.
-/
import FileServer.Agreement
import FileServer.Lib.OrderedMap
import FileServer.Replies

namespace FileServer

/-! ### The server as an ordered map -/

/-- Names and their contents, in the order of LIST. -/
abbrev Store := OrderedMap Path (List Byte)

/-- What a client asks of the server. -/
inductive Op
  | put (w : Path) (body : List Byte)
  | get (w : Path)
  | delete (w : Path)
  | list
  /-- A line that is no request. -/
  | bad

namespace Store

/-- The reply to a request, and what it leaves. -/
def serve (m : Store) : Op → List Byte × Store
  | .put w body => (okLine, m.put w body)
  | .get w =>
    match m.get w with
    | some body => (okLine ++ (sizeBytes body.length ++ body), m)
    | none => (responseText .error errNoSuchFile, m)
  | .delete w =>
    if w ∈ m.keys then (okLine, m.delete w) else (responseText .error errNoSuchFile, m)
  | .list => (okLine ++ listPayload m.keys, m)
  | .bad => (responseText .error errBadRequest, m)

/-- The replies to requests that are served one after the other, and what they leave. -/
def serveAll : Store → List Op → List (List Byte) × Store
  | m, [] => ([], m)
  | m, op :: ops =>
    let r := m.serve op
    let rs := serveAll r.2 ops
    (r.1 :: rs.1, rs.2)

end Store

/-! ### What the clients send -/

/-- A name of an entry of the directory that a request line can carry whole. -/
structure Nameable (w : Path) : Prop where
  entry : EntryName w
  length : w.length ≤ 255
  noNewline : newline ∉ w
  noNul : 0 ∉ w

/-- A line of text that is no request. -/
structure BadLine (line : List Byte) : Prop where
  noNewline : newline ∉ line
  noNul : 0 ∉ line
  length : line.length < maxHeaderLen - 1
  list : line ≠ ascii "LIST"
  named : ∀ v : Verb, v.Named → ∀ w, line ≠ nameLine v.word w

namespace Op

/-- What a client sends; of what follows a line that is no PUT the server reads nothing. -/
inductive Sends : Op → List Byte → Prop
  | put {w : Path} {body : List Byte} (hw : Nameable w) (hsize : body.length < 2 ^ 64) :
      Sends (.put w body)
        (nameLine (ascii "PUT") w ++ [newline] ++ (sizeBytes body.length ++ body))
  | get {w : Path} (hw : Nameable w) (rest : List Byte) :
      Sends (.get w) (nameLine (ascii "GET") w ++ [newline] ++ rest)
  | delete {w : Path} (hw : Nameable w) (rest : List Byte) :
      Sends (.delete w) (nameLine (ascii "DELETE") w ++ [newline] ++ rest)
  | list (rest : List Byte) : Sends .list (ascii "LIST" ++ [newline] ++ rest)
  | badLine {line : List Byte} (hline : BadLine line) (rest : List Byte) :
      Sends .bad (line ++ [newline] ++ rest)
  /-- There is no newline among the first 1023 bytes. -/
  | tooLong {bytes : List Byte} (hno : newline ∉ bytes.take (maxHeaderLen - 1))
      (hlen : maxHeaderLen - 1 ≤ bytes.length) : Sends .bad bytes

/-- The request line of an operation. -/
inductive Asks : Op → Request → Prop
  | put (w : Path) (body : List Byte) : Asks (.put w body) (.put w)
  | get (w : Path) : Asks (.get w) (.get w)
  | delete (w : Path) : Asks (.delete w) (.delete w)
  | list : Asks .list .list
  | bad (v : Option Verb) : Asks .bad (.bad v)

end Op

section Lines

variable {op : Op} {bytes line : List Byte} {w : Path} {q : Request}

theorem Nameable.text (h : Nameable w) {v : Verb} (hv : v.Named) :
    newline ∉ nameLine v.word w ∧ 0 ∉ nameLine v.word w ∧
      (nameLine v.word w).length < maxHeaderLen - 1 := by
  refine ⟨not_mem_nameLine hv (.inl rfl) h.noNewline, not_mem_nameLine hv (.inr rfl) h.noNul, ?_⟩
  have hword := hv.length_word
  have hlen := h.length
  rw [length_nameLine, maxHeaderLen]
  omega

/-- A line that is complete in time is the line that was sent. -/
theorem requestOf_sent (hn : newline ∉ line) (h0 : 0 ∉ line)
    (hlen : line.length < maxHeaderLen - 1) (hpre : line ++ [newline] <+: bytes) :
    requestOf (bytes.take (maxHeaderLen - 1)) = some (requestOfLine line) := by
  have htake : line ++ [newline] <+: bytes.take (maxHeaderLen - 1) := by
    refine List.prefix_take_iff.mpr ⟨hpre, ?_⟩
    rw [List.length_append, List.length_singleton]
    exact hlen
  obtain ⟨rest, hrest⟩ := htake
  rw [← hrest]
  exact requestOf_append (requestOf_line hn h0) rest

namespace Op.Sends

/-- Without a newline in time nothing is asked for; else the line is. -/
theorem request (h : op.Sends bytes) :
    (∃ q, requestOf (bytes.take (maxHeaderLen - 1)) = some q ∧ op.Asks q) ∨
      op = .bad ∧ newline ∉ bytes.take (maxHeaderLen - 1) ∧ maxHeaderLen - 1 ≤ bytes.length := by
  cases h with
  | @put w body hw =>
    obtain ⟨hn, h0, hlen⟩ := hw.text (v := .put) (.inr (.inl rfl))
    refine .inl ⟨_, requestOf_sent hn h0 hlen (List.prefix_append ..), ?_⟩
    exact requestOfLine_put w ▸ .put w body
  | @get w hw =>
    obtain ⟨hn, h0, hlen⟩ := hw.text (v := .get) (.inl rfl)
    refine .inl ⟨_, requestOf_sent hn h0 hlen (List.prefix_append ..), ?_⟩
    rw [show requestOfLine (nameLine Verb.get.word w) = .get w from
      requestOfLine_name (by decide) w]
    exact .get w
  | @delete w hw =>
    obtain ⟨hn, h0, hlen⟩ := hw.text (v := .delete) (.inr (.inr rfl))
    refine .inl ⟨_, requestOf_sent hn h0 hlen (List.prefix_append ..), ?_⟩
    rw [show requestOfLine (nameLine Verb.delete.word w) = .delete w from
      requestOfLine_name (by decide) w]
    exact .delete w
  | list =>
    refine .inl ⟨_, requestOf_sent (by decide) (by decide) (by decide) (List.prefix_append ..), ?_⟩
    rw [show requestOfLine (ascii "LIST") = .list by decide]
    exact .list
  | @badLine line hline =>
    refine .inl ⟨_, requestOf_sent hline.noNewline hline.noNul hline.length
      (List.prefix_append ..), ?_⟩
    generalize hq : requestOfLine line = q
    have hform := hq ▸ requestOfLine_form line
    cases hform with
    | list heq => exact absurd heq hline.list
    | named hv _ heq => exact absurd heq (hline.named _ hv _)
    | bad => exact .bad _
  | tooLong hno hlen => exact .inr ⟨rfl, hno, hlen⟩

/-- The line that the server parses is the request that was sent. -/
theorem asks (h : op.Sends bytes) {header : List Byte} (hpre : header ++ [newline] <+: bytes)
    (hlen : header.length < maxHeaderLen - 1) (hq : requestOf (header ++ [newline]) = some q) :
    op.Asks q := by
  have htake : header ++ [newline] <+: bytes.take (maxHeaderLen - 1) := by
    refine List.prefix_take_iff.mpr ⟨hpre, ?_⟩
    rw [List.length_append, List.length_singleton]
    exact hlen
  rcases h.request with ⟨q', hq', hasks⟩ | ⟨-, hno, -⟩
  · obtain ⟨rest, hrest⟩ := htake
    rw [← hrest, requestOf_append hq rest] at hq'
    obtain rfl := Option.some.inj hq'
    exact hasks
  · exact absurd (htake.subset (List.mem_append_right _ (List.mem_singleton_self _))) hno

/-- Where the parser finds no line, there is none in time. -/
theorem bad_of_none (h : op.Sends bytes)
    (hnone : requestOf (bytes.take (maxHeaderLen - 1)) = none) :
    op = .bad ∧ maxHeaderLen - 1 ≤ bytes.length := by
  rcases h.request with ⟨q, hq, -⟩ | ⟨hbad, -, hlen⟩
  · cases hnone.symm.trans hq
  · exact ⟨hbad, hlen⟩

end Op.Sends

end Lines

end FileServer
