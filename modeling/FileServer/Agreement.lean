/-
  Request lines between the client and the server.

  The client writes a line of any length from a buffer of 1024 bytes; the server reads
  a header of at most 1023 bytes and keeps 255 of the name; and neither escapes a
  newline.  The two agree on a name exactly where none of these limits is in the way
  (`lines_agree_iff`).
-/
import FileServer.Equiv.Sender
import FileServer.Recognition

namespace FileServer

/-- The server makes of a line what the client meant by it: it rejects it, or it has the verb, the
whole name, and the line read to its end. -/
def Agrees (c : Conn) (v : Verb) (w : Path) (line : List Byte) : Prop :=
  c.replies = [(.error, errBadRequest)] ∨
    c.client.requestVerb = v ∧ c.client.filename = w ∧ c.received = line

/-- How many bytes of a name the header of the server has room for, behind verb and blank. -/
def nameRoom (v : Verb) : Nat := maxHeaderLen - 1 - (v.word.length + 1)

/-- The event has something to decide on. -/
def Decisive (c : Ctx) : Prop :=
  newline ∈ (stream c).take (maxHeaderLen - 1) ∨ maxHeaderLen - 1 ≤ (stream c).length

section Lines

variable {c : Ctx} {v : Verb} {u w : Path} {l : List Byte}

theorem Verb.Named.length_word (hv : v.Named) : v.word.length ≤ 6 := by
  rcases hv with rfl | rfl | rfl <;> decide

theorem Verb.Named.text (hv : v.Named) {b : Byte} (hb : b = newline ∨ b = 0) : b ∉ v.word := by
  rcases hv with rfl | rfl | rfl <;> rcases hb with rfl | rfl <;> decide

theorem not_mem_nameLine (hv : v.Named) {b : Byte} (hb : b = newline ∨ b = 0) (hu : b ∉ u) :
    b ∉ nameLine v.word u := by
  have hsp : b ≠ space := by rcases hb with rfl | rfl <;> decide
  simp only [nameLine, List.mem_append, List.mem_singleton, not_or]
  exact ⟨⟨hv.text hb, hsp⟩, hu⟩

theorem length_nameLine (verbStr : List Byte) (u : Path) :
    (nameLine verbStr u).length = verbStr.length + u.length + 1 := by
  simp only [nameLine, List.length_append, List.length_singleton]
  omega

/-- The first newline of a list that has one near its start. -/
theorem split_newline {k : Nat} (h : newline ∈ l.take k) :
    ∃ u rest, l = u ++ newline :: rest ∧ newline ∉ u ∧ u.length < k := by
  obtain ⟨u, rest, htake, hu⟩ := List.eq_append_cons_of_mem h
  refine ⟨u, rest ++ l.drop k, ?_, hu, ?_⟩
  · calc l = l.take k ++ l.drop k := (List.take_append_drop k l).symm
      _ = u ++ newline :: (rest ++ l.drop k) := by
        rw [htake, List.append_assoc, List.cons_append]
  · have hlen := congrArg List.length htake
    rw [List.length_take, List.length_append, List.length_cons] at hlen
    omega

/-- Where the stream starts with a whole line, the event recognises it. -/
theorem recognisedLine_of_prefix (hok : ConnOk c) (hc : c.freed = false) (hf : c.fault = false)
    (hs : c.client.state = .recvHeader) (hnew : newline ∉ c.received) (hdec : Decisive c)
    (hv : v.Named) (hu : newline ∉ u) (hu0 : 0 ∉ u)
    (hlen : (nameLine v.word u).length < maxHeaderLen - 1) (hstream : stream c <+: l)
    (hline : nameLine v.word u ++ [newline] <+: l) :
    RecognisedLine (handleReadEvent c) (nameLine v.word u) := by
  have hno : newline ∉ nameLine v.word u := not_mem_nameLine hv (.inl rfl) hu
  have hno0 : 0 ∉ nameLine v.word u := not_mem_nameLine hv (.inr rfl) hu0
  have hpre : nameLine v.word u ++ [newline] <+: stream c := by
    rcases List.prefix_or_prefix_of_prefix hstream hline with h | h
    · rcases List.prefix_concat_iff.mp h with heq | h
      · exact heq ▸ List.prefix_rfl
      · -- a part of the line without its newline is nothing to decide on
        exfalso
        rcases hdec with hmem | hle
        · exact hno (h.subset (List.mem_of_mem_take hmem))
        · exact absurd h.length_le (Nat.not_le.mpr (hlen.trans_le hle))
    · exact h
  obtain ⟨z, hz⟩ := hpre
  rw [List.append_assoc, List.singleton_append] at hz
  obtain ⟨htake, hbefore⟩ := first_newline hz.symm hlen hno
  have hrec := (handleReadEvent_recognised_iff hok hc hf hs hnew).mpr fun _ => hbefore ▸ hno0
  exact hbefore ▸ hrec.line htake

theorem RecognisedLine.agrees_iff (h : RecognisedLine c (nameLine v.word u)) (hv : v.Named)
    {line : List Byte} : Agrees c.toConn v w line ↔
      u.take 255 = w ∧ nameLine v.word u ++ [newline] = line := by
  obtain ⟨hverb, hname, hreply⟩ := (h.named v hv _).mpr ⟨u, rfl, rfl⟩
  constructor
  · rintro (hbad | ⟨-, hw, hrec⟩)
    · exact absurd (hbad ▸ List.mem_singleton_self _) hreply
    · exact ⟨hname.symm.trans hw, h.received.symm.trans hrec⟩
  · rintro ⟨hw, hline⟩
    exact .inr ⟨hverb, hname.trans hw, h.received.trans hline⟩

/-- The names that the server takes over whole, or rejects. -/
def Transmits (v : Verb) (w : Path) : Prop :=
  newline ∉ w.take (nameRoom v) ∧ (w.length ≤ 255 ∨ nameRoom v ≤ w.length)

theorem agrees_iff (hok : ConnOk c) (hc : c.freed = false) (hf : c.fault = false)
    (hs : c.client.state = .recvHeader) (hnew : newline ∉ c.received) (hdec : Decisive c)
    (hv : v.Named) (hw : 0 ∉ w) {mem : Nat → Byte} (hmem : Holds mem (requestCall v.word w).stored)
    {rest : List Byte}
    (hfeed : stream c <+: bytesAt mem 0 (requestCall v.word w).count ++ rest) :
    Agrees (handleReadEvent c).toConn v w (bytesAt mem 0 (requestCall v.word w).count) ↔
      Transmits v w := by
  have hword := hv.length_word
  have hroom : nameRoom v + v.word.length + 1 = maxHeaderLen - 1 := by
    unfold nameRoom maxHeaderLen
    omega
  have hcut := take_requestBytes hmem
  rw [show requestBufferSize - 1 = maxHeaderLen - 1 from rfl] at hcut
  -- a line that fits in the header of the server is written as it is
  have hwritten : ∀ {p : List Byte}, p <+: requestText v.word w → p.length ≤ maxHeaderLen - 1 →
      p <+: bytesAt mem 0 (requestCall v.word w).count := by
    intro p hp hle
    have htake : p <+: (requestText v.word w).take (maxHeaderLen - 1) :=
      List.prefix_take_iff.mpr ⟨hp, hle⟩
    rw [← hcut] at htake
    exact htake.trans (List.take_prefix ..)
  by_cases hnl : newline ∈ w.take (nameRoom v)
  · -- the server takes the newline in the name for the end of the line
    obtain ⟨u, z, rfl, hu, hlt⟩ := split_newline hnl
    have hline : nameLine v.word u ++ [newline] <+: requestText v.word (u ++ newline :: z) :=
      ⟨z ++ [newline], by simp [requestText, nameLine]⟩
    have hlen : (nameLine v.word u ++ [newline]).length ≤ maxHeaderLen - 1 := by
      rw [List.length_append, length_nameLine, List.length_singleton]
      omega
    have hrec := recognisedLine_of_prefix hok hc hf hs hnew hdec hv hu
      (fun h => hw (List.mem_append_left _ h))
      (by rw [List.length_append, List.length_singleton] at hlen; omega) hfeed
      ((hwritten hline hlen).trans (List.prefix_append ..))
    rw [hrec.agrees_iff hv]
    refine iff_of_false ?_ fun h => h.1 hnl
    rintro ⟨heq, -⟩
    have hmem : newline ∈ u.take 255 := heq ▸ List.mem_append_right _ (List.mem_cons_self ..)
    exact hu (List.mem_of_mem_take hmem)
  by_cases hlt : w.length < nameRoom v
  · -- the whole line fits
    rw [List.take_of_length_le hlt.le] at hnl
    have hlen : (nameLine v.word w ++ [newline]).length ≤ maxHeaderLen - 1 := by
      rw [List.length_append, length_nameLine, List.length_singleton]
      omega
    have hpre := hwritten (List.prefix_rfl (l := requestText v.word w)) hlen
    have hrec := recognisedLine_of_prefix hok hc hf hs hnew hdec hv hnl hw
      (by rw [List.length_append, List.length_singleton] at hlen; omega) hfeed
      (hpre.trans (List.prefix_append ..))
    have hcount : (requestCall v.word w).count = (requestText v.word w).length :=
      toSize_snprintfReturn (Nat.lt_of_le_of_lt hlen (by decide))
    have hall : nameLine v.word w ++ [newline] = bytesAt mem 0 (requestCall v.word w).count := by
      refine hpre.eq_of_length ?_
      rw [length_bytesAt, hcount]
    rw [hrec.agrees_iff hv, Transmits, List.take_of_length_le hlt.le]
    constructor
    · rintro ⟨htake, -⟩
      refine ⟨hnl, .inl ?_⟩
      rw [← htake]
      exact List.length_take_le ..
    · rintro ⟨-, hle⟩
      exact ⟨List.take_of_length_le (hle.resolve_right (Nat.not_le.mpr hlt)), hall⟩
  · -- the header is full before the line ends
    have hge : nameRoom v ≤ w.length := Nat.le_of_not_lt hlt
    have htext : (requestText v.word w).take (maxHeaderLen - 1)
        = nameLine v.word (w.take (nameRoom v)) := by
      have hsplit : requestText v.word w
          = nameLine v.word (w.take (nameRoom v)) ++ (w.drop (nameRoom v) ++ [newline]) := by
        simp only [requestText, nameLine, List.append_assoc, ← List.append_assoc (w.take _),
          List.take_append_drop]
      rw [hsplit]
      refine List.take_left' ?_
      rw [length_nameLine, List.length_take, Nat.min_eq_left hge]
      omega
    have hfull : maxHeaderLen - 1 ≤ (bytesAt mem 0 (requestCall v.word w).count).length := by
      have hlen := congrArg List.length (hcut.trans htext)
      rw [List.length_take, length_nameLine, List.length_take, Nat.min_eq_left hge] at hlen
      omega
    have hno : newline ∉ (stream c).take (maxHeaderLen - 1) := by
      intro hmem'
      have hpre := List.prefix_take_iff.mpr
        ⟨(List.take_prefix (maxHeaderLen - 1) (stream c)).trans hfeed, List.length_take_le ..⟩
      rw [List.take_append_of_le_length hfull, hcut, htext] at hpre
      exact not_mem_nameLine hv (.inl rfl) hnl (hpre.subset hmem')
    have hrec := (handleReadEvent_recognised_iff hok hc hf hs hnew).mpr fun h => absurd h hno
    exact iff_of_true (.inl (hrec.tooLong hno (hdec.resolve_left hno)).2) ⟨hnl, .inr hge⟩

end Lines

/-- **Client and server agree on a request line**, however it is cut into segments, exactly if the
header of the server meets no newline in the name, and the name fits in the record or does not fit
in the header. -/
theorem lines_agree_iff {s : Server} (hs : Reachable s) (hfault : s.fault = false) {conn : Conn}
    (hmem : conn ∈ s.conns) (hlive : conn.freed = false)
    (hstate : conn.client.state = .recvHeader) (hnew : newline ∉ conn.received)
    (hdec : Decisive (s.ctx conn)) {v : Verb} (hv : v.Named) {w : Path} (hw : 0 ∉ w)
    {mem : Nat → Byte} (hbuf : Holds mem (requestCall v.word w).stored) {rest : List Byte}
    (hfeed : stream (s.ctx conn) <+: bytesAt mem 0 (requestCall v.word w).count ++ rest) :
    Agrees (handleReadEvent (s.ctx conn)).toConn v w
        (bytesAt mem 0 (requestCall v.word w).count) ↔ Transmits v w :=
  agrees_iff (connOk_stable.reachable hs conn hmem) hlive hfault hstate hnew hdec hv hw hbuf hfeed

instance (c : Ctx) : Decidable (Decisive c) := inferInstanceAs (Decidable (_ ∨ _))

instance (v : Verb) (w : Path) : Decidable (Transmits v w) := inferInstanceAs (Decidable (_ ∧ _))

instance (mem : Nat → Byte) (text : List Byte) : Decidable (Holds mem text) :=
  inferInstanceAs (Decidable (_ = _))

/-- The memory of the client that asks for `w`, with NULs behind the line. -/
def getMemory (w : Path) : Nat → Byte := fun i => (requestText (ascii "GET") w).getD i 0

/-- The request line for `w` has arrived. -/
def askedFor (w : Path) : Server := arrived (requestText (ascii "GET") w) []

theorem lines_agree_x : ∃ conn ∈ (askedFor (ascii "x")).conns[0]?,
    Agrees (handleReadEvent ((askedFor (ascii "x")).ctx conn)).toConn .get (ascii "x")
      (bytesAt (getMemory (ascii "x")) 0 (handleGet (ascii "x")).count) := by
  obtain ⟨conn, hi, hlive, hstate, hnew, hdec, hfeed⟩ :
      ∃ conn ∈ (askedFor (ascii "x")).conns[0]?, conn.freed = false ∧
        conn.client.state = .recvHeader ∧ newline ∉ conn.received ∧
        Decisive ((askedFor (ascii "x")).ctx conn) ∧
        stream ((askedFor (ascii "x")).ctx conn) <+:
          bytesAt (getMemory (ascii "x")) 0 (requestCall Verb.get.word (ascii "x")).count ++ [] := by
    decide +kernel
  exact ⟨conn, hi, (lines_agree_iff (arrived_reachable _ _) (by decide +kernel)
    (List.mem_of_getElem? hi) hlive hstate hnew hdec (.inl rfl) (by decide) (by decide)
    hfeed).mpr (by decide)⟩

/-- Of a name of 256 bytes the server takes over 255. -/
theorem not_lines_agree_longName : ¬ ∀ s, Reachable s → s.fault = false → ∀ conn ∈ s.conns,
    conn.freed = false → conn.client.state = .recvHeader → newline ∉ conn.received →
    Decisive (s.ctx conn) → ∀ v : Verb, v.Named → ∀ w, 0 ∉ w → ∀ mem rest,
    Holds mem (requestCall v.word w).stored →
    stream (s.ctx conn) <+: bytesAt mem 0 (requestCall v.word w).count ++ rest →
    Agrees (handleReadEvent (s.ctx conn)).toConn v w
      (bytesAt mem 0 (requestCall v.word w).count) := by
  intro h
  obtain ⟨conn, hi, hlive, hstate, hnew, hdec, hfeed⟩ :
      ∃ conn ∈ (askedFor (List.replicate 256 97)).conns[0]?, conn.freed = false ∧
        conn.client.state = .recvHeader ∧ newline ∉ conn.received ∧
        Decisive ((askedFor (List.replicate 256 97)).ctx conn) ∧
        stream ((askedFor (List.replicate 256 97)).ctx conn) <+:
          bytesAt (getMemory (List.replicate 256 97)) 0
            (requestCall Verb.get.word (List.replicate 256 97)).count ++ [] := by decide +kernel
  have hreach : Reachable (askedFor (List.replicate 256 97)) := arrived_reachable _ _
  have hfault : (askedFor (List.replicate 256 97)).fault = false := by decide +kernel
  have hmem := List.mem_of_getElem? hi
  have hbuf : Holds (getMemory (List.replicate 256 97))
      (requestCall Verb.get.word (List.replicate 256 97)).stored := by decide +kernel
  have hname : 0 ∉ List.replicate 256 (97 : Byte) := by decide
  have htrans : ¬ Transmits .get (List.replicate 256 97) := by decide +kernel
  refine htrans ((agrees_iff (connOk_stable.reachable hreach conn hmem) hlive hfault hstate hnew
    hdec (.inl rfl) hname hbuf hfeed).mp ?_)
  exact h _ hreach hfault conn hmem hlive hstate hnew hdec .get (.inl rfl) _ hname _ [] hbuf hfeed

end FileServer
