/-
The chunked coding as a grammar, apart from any reader: chunks one after another, a line that tells of no more data,
trailer lines, and an empty line. A body is taken off the front of a buffer exactly if the buffer begins with one that
has this form, and what follows the body is left there and does not matter.
-/
import Hypertext.Proofs.Message.ChunkedForm

namespace Hypertext

namespace Chunked

/-- A line that opens a chunk: at most sixteen digits, perhaps none, then blanks, then perhaps an extension that
begins with a semicolon. -/
structure SizeLine where
  digits : Bytes
  blanks : Bytes
  extension : Option Bytes
  isHex : ∀ d ∈ digits, (Bytes.hexValue? d).isSome = true
  fits : digits.length ≤ 16
  isBlank : ∀ b ∈ blanks, b = 32 ∨ b = 9
  unbroken : ∀ e ∈ extension, (13 : UInt8) ∉ e

/-- The number that the digits write, zero if there are none. -/
def SizeLine.size (l : SizeLine) : Nat := l.digits.hexadecimal 0

/-- What follows the size, without the end of the line. -/
def SizeLine.comment (l : SizeLine) : Bytes := l.extension.elim [] (59 :: ·)

def SizeLine.bytes (l : SizeLine) : Bytes := l.digits ++ (l.blanks ++ (l.comment ++ Bytes.crlf))

/-- A line with its size and that many bytes of data, at least one. -/
structure Chunk where
  line : SizeLine
  data : Bytes
  size_eq : line.size = data.length
  nonempty : data ≠ []

def Chunk.bytes (c : Chunk) : Bytes := c.line.bytes ++ (c.data ++ Bytes.crlf)

/-- A line after the chunks that is not empty. A carriage return or a line feed may stand in it, but not one right
after the other. -/
structure Trailer where
  line : Bytes
  nonempty : line ≠ []
  unbroken : ¬ Bytes.crlf <:+: line

def Trailer.bytes (t : Trailer) : Bytes := t.line ++ Bytes.crlf

/-- A whole body in the chunked coding. -/
structure Wire where
  chunks : List Chunk
  last : SizeLine
  last_size : last.size = 0
  trailers : List Trailer

namespace Wire

/-- The body as it is sent. -/
def bytes (w : Wire) : Bytes :=
  w.chunks.flatMap Chunk.bytes ++ (w.last.bytes ++ (w.trailers.flatMap Trailer.bytes ++ Bytes.crlf))

/-- The data that is sent. -/
def content (w : Wire) : Bytes := w.chunks.flatMap Chunk.data

end Wire

/-! ## Size lines -/

theorem hexadecimal_cons {d : UInt8} {v : Nat} (hv : Bytes.hexValue? d = some v) (n : Nat) (digits : Bytes) :
    Bytes.hexadecimal n (d :: digits) = digits.hexadecimal (16 * n + v) := by
  simp [Bytes.hexadecimal, hv]

/-- Digits that are read are as many as there was room for. -/
theorem exists_of_sizeDigits {room n m : Nat} {s rest : Bytes} (h : sizeDigits room n s = .done m rest) :
    ∃ digits, s = digits ++ rest ∧ (∀ d ∈ digits, (Bytes.hexValue? d).isSome = true) ∧ digits.length ≤ room ∧
      digits.hexadecimal n = m := by
  fun_induction sizeDigits room n s with
  | case1 => cases h
  | case2 room n b s hb =>
    cases h
    exact ⟨[], rfl, by simp, Nat.zero_le _, rfl⟩
  | case3 => cases h
  | case4 n b s d room hb ih =>
    obtain ⟨digits, rfl, hhex, hfits, rfl⟩ := ih h
    refine ⟨b :: digits, rfl, ?_, by simpa using hfits, hexadecimal_cons hb n digits⟩
    simpa [hb] using hhex

/-- Digits that fit are read up to the first byte that is none. -/
theorem sizeDigits_append {c : UInt8} {after : Bytes} (hc : Bytes.hexValue? c = none) :
    ∀ {digits : Bytes} {room : Nat} (n : Nat), (∀ d ∈ digits, (Bytes.hexValue? d).isSome = true) →
      digits.length ≤ room →
      sizeDigits room n (digits ++ c :: after) = .done (digits.hexadecimal n) (c :: after)
  | [], room, n, _, _ => by simp [sizeDigits, hc, Bytes.hexadecimal]
  | d :: digits, 0, n, _, hfits => by simp at hfits
  | d :: digits, room + 1, n, hhex, hfits => by
    obtain ⟨v, hv⟩ := Option.isSome_iff_exists.1 (hhex d List.mem_cons_self)
    have hothers : ∀ x ∈ digits, (Bytes.hexValue? x).isSome = true := fun x hx => hhex x (List.mem_cons_of_mem _ hx)
    have hstep : sizeDigits (room + 1) n (d :: (digits ++ c :: after)) =
        sizeDigits room (16 * n + v) (digits ++ c :: after) := by
      simp [sizeDigits, hv]
    rw [List.cons_append, hstep, hexadecimal_cons hv]
    exact sizeDigits_append hc (16 * n + v) hothers (by simpa using hfits)

/-- The digits of a size line are read up to its blanks, or to what comes after those. -/
theorem SizeLine.sizeDigits_eq_done (l : SizeLine) {mark : UInt8} (hmark : mark = 13 ∨ mark = 59) (after : Bytes) :
    sizeDigits 16 0 (l.digits ++ (l.blanks ++ mark :: after)) = .done l.size (l.blanks ++ mark :: after) := by
  cases hb : l.blanks with
  | nil =>
    have hnone : Bytes.hexValue? mark = none := by rcases hmark with rfl | rfl <;> rfl
    exact sizeDigits_append hnone 0 l.isHex l.fits
  | cons b blanks =>
    have hnone : Bytes.hexValue? b = none := by
      rcases l.isBlank b (by simp [hb]) with rfl | rfl <;> rfl
    exact sizeDigits_append hnone 0 l.isHex l.fits

/-- The end of a line, and the number that was read in it. -/
theorem lineFeed_eq_done_iff {s rest : Bytes} {m n : Nat} :
    (Scanner.byte (· == 10) () >>= fun _ => (Pure.pure m : Scanner Unit Nat)) s = .done n rest ↔
      s = 10 :: rest ∧ m = n := by
  constructor
  · intro h
    obtain ⟨b, mid, hbyte, hpure⟩ := Scanner.bind_eq_done h
    obtain ⟨rfl, hb⟩ := Scanner.byte_eq_done hbyte
    obtain rfl := eq_of_beq hb
    cases hpure
    exact ⟨rfl, rfl⟩
  · rintro ⟨rfl, rfl⟩
    rfl

/-- A line that is read is written by digits, blanks and an extension. -/
theorem exists_of_sizeLine {s rest : Bytes} {n : Nat} (h : sizeLine s = .done n rest) :
    ∃ l : SizeLine, s = l.bytes ++ rest ∧ l.size = n := by
  obtain ⟨m, s₁, h₁, hgap⟩ := Scanner.bind_eq_done h
  obtain ⟨blanks, s₂, h₂, hmark⟩ := Scanner.bind_eq_done hgap
  obtain ⟨mark, s₃, h₃, hend⟩ := Scanner.bind_eq_done hmark
  clear h hgap hmark
  obtain ⟨digits, rfl, hhex, hfits, rfl⟩ := exists_of_sizeDigits h₁
  obtain ⟨rfl, hblanks⟩ := Scanner.span_eq_done h₂
  obtain ⟨rfl, hmark⟩ := Scanner.byte_eq_done h₃
  have hblank : ∀ b ∈ blanks, b = 32 ∨ b = 9 := fun b hb => by simpa using hblanks b hb
  rcases Bool.or_eq_true_iff.1 hmark with hmark | hmark
  · obtain rfl := eq_of_beq hmark
    obtain ⟨rfl, rfl⟩ := lineFeed_eq_done_iff.1 hend
    refine ⟨⟨digits, blanks, none, hhex, hfits, hblank, by simp⟩, ?_, rfl⟩
    simp [SizeLine.bytes, SizeLine.comment, Bytes.crlf]
  · obtain rfl := eq_of_beq hmark
    obtain ⟨extension, s₄, h₄, hnext⟩ := Scanner.bind_eq_done hend
    obtain ⟨c, s₅, h₅, hend⟩ := Scanner.bind_eq_done hnext
    obtain ⟨rfl, rfl⟩ := lineFeed_eq_done_iff.1 hend
    obtain ⟨rfl, hextension⟩ := Scanner.span_eq_done h₄
    obtain ⟨-, hdrop, -⟩ := Scanner.span_eq_done_iff.1 h₄
    cases s₄ with
    | nil => cases h₅
    | cons b s₄ =>
      cases h₅
      -- the extension ends at the first carriage return
      have hc : c = 13 := by
        have hstop := List.head?_dropWhile_not (· != 13) (extension ++ c :: 10 :: rest)
        rw [hdrop] at hstop
        simpa using hstop
      subst hc
      have hunbroken : (13 : UInt8) ∉ extension := fun hmem => absurd (hextension 13 hmem) (by decide)
      refine ⟨⟨digits, blanks, some extension, hhex, hfits, hblank, by simpa using hunbroken⟩, ?_, rfl⟩
      simp [SizeLine.bytes, SizeLine.comment, Bytes.crlf]

/-- A line that is written is read to its end. -/
theorem sizeLine_append (l : SizeLine) (rest : Bytes) : sizeLine (l.bytes ++ rest) = .done l.size rest := by
  have hblanks : ∀ b ∈ l.blanks, (b == 32 || b == 9) = true := fun b hb => by simpa using l.isBlank b hb
  cases hext : l.extension with
  | none =>
    have hbytes : l.bytes ++ rest = l.digits ++ (l.blanks ++ 13 :: 10 :: rest) := by
      simp [SizeLine.bytes, SizeLine.comment, hext, Bytes.crlf]
    rw [hbytes, sizeLine, Scanner.bind_of_done (l.sizeDigits_eq_done (.inl rfl) _),
      Scanner.bind_of_done (Scanner.span_append hblanks rfl), Scanner.bind_of_done (Scanner.byte_of_pos rfl)]
    rfl
  | some e =>
    have hbytes : l.bytes ++ rest = l.digits ++ (l.blanks ++ 59 :: (e ++ 13 :: 10 :: rest)) := by
      simp [SizeLine.bytes, SizeLine.comment, hext, Bytes.crlf]
    have hunbroken : ∀ b ∈ e, (b != 13) = true := by
      intro b hb
      rw [bne_iff_ne]
      rintro rfl
      exact l.unbroken e hext hb
    rw [hbytes, sizeLine, Scanner.bind_of_done (l.sizeDigits_eq_done (.inr rfl) _),
      Scanner.bind_of_done (Scanner.span_append hblanks rfl), Scanner.bind_of_done (Scanner.byte_of_pos rfl)]
    change (Scanner.span (· != 13) >>= _) _ = _
    rw [Scanner.bind_of_done (Scanner.span_append hunbroken rfl)]
    rfl

/-! ## Trailers -/

/-- A line in front of which stands a byte that does not begin the end of a line. -/
theorem not_crlf_infix_cons {b : UInt8} {line t : Bytes} (hend : ¬ (b = 13 ∧ ∃ x, line ++ t = 10 :: x))
    (hline : ¬ Bytes.crlf <:+: line) : ¬ Bytes.crlf <:+: b :: line := by
  rw [crlf_infix_cons_iff]
  rintro (⟨rfl, x, rfl⟩ | hin)
  · exact hend ⟨rfl, x ++ t, rfl⟩
  · exact hline hin

/-- A line that is passed goes up to the first end of a line. -/
theorem exists_of_line {total limit : Nat} {p : Bytes × Bytes} {s : Bytes}
    (h : trailers total limit false s = .ok (some p)) :
    ∃ line after, s = line ++ (Bytes.crlf ++ after) ∧ ¬ Bytes.crlf <:+: line ∧
      trailers total limit true after = .ok (some p) := by
  induction s with
  | nil => exact absurd h (by rw [trailers]; exact unfinished_ne_some _ _ _)
  | cons b s ih =>
    by_cases hend : b = 13 ∧ ∃ x, s = 10 :: x
    · obtain ⟨rfl, after, rfl⟩ := hend
      rw [trailers] at h
      exact ⟨[], after, rfl, by simp [Bytes.crlf], h⟩
    · rw [trailers] at h
      · obtain ⟨line, after, rfl, hline, hafter⟩ := ih h
        exact ⟨b :: line, after, rfl, not_crlf_infix_cons hend hline, hafter⟩
      · exact fun x hb hx => hend ⟨hb, x, hx⟩

/-- Lines that are passed are trailers and an empty line, and the empty line is the only one that may pass the limit. -/
theorem exists_of_trailers {total limit : Nat} {body rest s : Bytes} (htotal : s.length ≤ total)
    (h : trailers total limit true s = .ok (some (body, rest))) :
    ∃ lines : List Trailer, s = lines.flatMap Trailer.bytes ++ (Bytes.crlf ++ rest) ∧ body = [] ∧
      total ≤ limit + (rest.length + 2) := by
  have hstart := trailers_start h
  cases s with
  | nil =>
    rw [trailers, if_neg (by omega)] at h
    exact absurd h (unfinished_ne_some _ _ _)
  | cons b s =>
    by_cases hend : b = 13 ∧ ∃ x, s = 10 :: x
    · obtain ⟨rfl, after, rfl⟩ := hend
      rw [trailers, if_neg (by omega)] at h
      cases h
      simp only [List.length_cons] at hstart htotal
      exact ⟨[], rfl, rfl, by omega⟩
    · rw [trailers, if_neg (by omega)] at h
      · obtain ⟨line, after, hs, hline, hafter⟩ := exists_of_line h
        have hlt : after.length < (b :: s).length := by rw [hs]; simp [Bytes.crlf]; omega
        obtain ⟨lines, rfl, rfl, hsize⟩ := exists_of_trailers (by omega) hafter
        subst hs
        refine ⟨⟨b :: line, by simp, not_crlf_infix_cons hend hline⟩ :: lines, ?_, rfl, hsize⟩
        simp [Trailer.bytes]
      · exact fun x hb hx => hend ⟨hb, x, hx⟩
termination_by s.length

/-- Trailers and an empty line are passed if all before the empty line is within the limit. -/
theorem trailers_append_lines {total limit : Nat} {rest : Bytes} (hsize : total ≤ limit + (rest.length + 2)) :
    ∀ lines : List Trailer,
      trailers total limit true (lines.flatMap Trailer.bytes ++ (Bytes.crlf ++ rest)) = .ok (some ([], rest))
  | [] => by
    show trailers total limit true (13 :: 10 :: rest) = _
    rw [trailers, if_neg (by simp; omega)]
  | t :: lines => by
    obtain ⟨line, hne, hunbroken⟩ := t
    obtain ⟨b, line, rfl⟩ := List.exists_cons_of_ne_nil hne
    have hline : ¬ Bytes.crlf <:+: line := fun hin => hunbroken (crlf_infix_cons_iff.2 (.inr hin))
    have hrest := trailers_append_lines hsize lines
    rw [List.flatMap_cons, Trailer.bytes, List.append_assoc, List.append_assoc, List.cons_append, trailers,
      if_neg (by simp [Bytes.crlf]; omega)]
    · rw [trailers_append_line _ hline, hrest]
    · exact not_crlf_of_line hunbroken _

/-! ## Chunks -/

namespace Wire

/-- One more chunk in front. -/
def cons (c : Chunk) (w : Wire) : Wire := { w with chunks := c :: w.chunks }

theorem bytes_cons (c : Chunk) (w : Wire) : (cons c w).bytes = c.bytes ++ w.bytes := by
  simp [bytes, cons]

theorem content_cons (c : Chunk) (w : Wire) : (cons c w).content = c.data ++ w.content := by
  simp [content, cons]

/-- The ends of the last size line and of the last empty line are always there. -/
theorem four_le_length (w : Wire) : 4 ≤ w.bytes.length := by
  simp only [bytes, SizeLine.bytes, List.length_append, Bytes.crlf, List.length_cons, List.length_nil]
  omega

end Wire

theorem Chunk.size_ne_zero (c : Chunk) : c.line.size ≠ 0 := by
  rw [c.size_eq]
  exact fun hzero => c.nonempty (List.eq_nil_of_length_eq_zero hzero)

theorem Chunk.sizeLine_append (c : Chunk) (after : Bytes) :
    sizeLine (c.bytes ++ after) = .done c.line.size (c.data ++ (Bytes.crlf ++ after)) := by
  rw [Chunk.bytes, List.append_assoc, List.append_assoc]
  exact Chunked.sizeLine_append c.line _

/-- A chunk that has been read, with what is after it. -/
theorem exists_chunk {s rest : Bytes} {size : Nat} (hs : sizeLine s = .done size rest) (hz : size ≠ 0)
    (hlen : size + 2 ≤ rest.length) (hend : (rest.drop size).take 2 = Bytes.crlf) :
    ∃ c : Chunk, s = c.bytes ++ rest.drop (size + 2) ∧ c.data = rest.take size := by
  obtain ⟨line, rfl, rfl⟩ := exists_of_sizeLine hs
  have hdata : line.size = (rest.take line.size).length := by rw [List.length_take]; omega
  have hsome : rest.take line.size ≠ [] := by
    intro hnil
    rw [hnil] at hdata
    exact hz hdata
  have hrest : rest = rest.take line.size ++ (Bytes.crlf ++ rest.drop (line.size + 2)) := by
    rw [← hend, ← List.drop_drop, List.take_append_drop, List.take_append_drop]
  refine ⟨⟨line, rest.take line.size, hdata, hsome⟩, ?_, rfl⟩
  rw [Chunk.bytes]
  simp only [List.append_assoc]
  rw [← hrest]

/-- Chunks that are read are written by a body of the grammar. -/
theorem exists_of_chunks {total limit : Nat} {s body rest : Bytes} (htotal : s.length ≤ total)
    (h : chunks total limit s = .ok (some (body, rest))) :
    ∃ w : Wire, s = w.bytes ++ rest ∧ body = w.content ∧ total ≤ limit + (rest.length + 2) := by
  rcases chunks_eq_some_iff.1 h with ⟨r, hs, hr⟩ | ⟨size, r, b, hz, hs, -, hlen, hend, hb, rfl⟩
  · obtain ⟨last, rfl, hlast⟩ := exists_of_sizeLine hs
    rw [List.length_append] at htotal
    obtain ⟨lines, rfl, rfl, hsize⟩ := exists_of_trailers (by omega) hr
    exact ⟨⟨[], last, hlast, lines⟩, by simp [Wire.bytes], rfl, hsize⟩
  · have hle := (sizeLine_incremental.suffix hs).length_le
    obtain ⟨w, hw, rfl, hsize⟩ := exists_of_chunks (by simp; omega) hb
    obtain ⟨c, rfl, hdata⟩ := exists_chunk hs hz hlen hend
    refine ⟨.cons c w, ?_, ?_, hsize⟩
    · rw [Wire.bytes_cons, List.append_assoc, ← hw]
    · rw [Wire.content_cons, hdata]
termination_by s.length
decreasing_by simp; omega

/-- A chunk of the grammar that is within the limit is read, and the chunks after it. -/
theorem chunks_append_chunk {total limit : Nat} (c : Chunk) (after : Bytes)
    (hsize : total ≤ limit + after.length) (htotal : (c.data ++ (Bytes.crlf ++ after)).length ≤ total) :
    chunks total limit (c.bytes ++ after) =
      (chunks total limit after).map (·.map fun p => (c.data ++ p.1, p.2)) := by
  have hdrop : (c.data ++ (Bytes.crlf ++ after)).drop (c.data.length + 2) = after := by
    rw [← List.drop_drop, List.drop_left]
    rfl
  simp only [List.length_append, Bytes.crlf, List.length_cons, List.length_nil] at htotal
  rw [chunks_of_chunk c.size_ne_zero (c.sizeLine_append after), c.size_eq, if_neg (by simp [Bytes.crlf]; omega),
    if_neg (by simp [Bytes.crlf]), if_neg (by simp [Bytes.crlf]), hdrop, List.take_left]

/-- A body of the grammar is read if all before its last empty line is within the limit. -/
theorem chunks_append_wire {total limit : Nat} {rest : Bytes} (hsize : total ≤ limit + (rest.length + 2)) (w : Wire)
    (htotal : (w.bytes ++ rest).length ≤ total) :
    chunks total limit (w.bytes ++ rest) = .ok (some (w.content, rest)) := by
  obtain ⟨cs, last, hlast, lines⟩ := w
  induction cs with
  | nil =>
    have hbytes : (Wire.mk [] last hlast lines).bytes ++ rest =
        last.bytes ++ (lines.flatMap Trailer.bytes ++ (Bytes.crlf ++ rest)) := by simp [Wire.bytes]
    rw [hbytes, chunks_of_last (hlast ▸ sizeLine_append last _)]
    exact trailers_append_lines hsize lines
  | cons c cs ih =>
    have hbytes := Wire.bytes_cons c ⟨cs, last, hlast, lines⟩
    have hcontent := Wire.content_cons c ⟨cs, last, hlast, lines⟩
    have hlen := Wire.four_le_length ⟨cs, last, hlast, lines⟩
    simp only [Wire.cons] at hbytes hcontent
    rw [hbytes, List.append_assoc, List.length_append, Chunk.bytes, List.length_append] at htotal
    rw [hbytes, hcontent, List.append_assoc, chunks_append_chunk c _ (by rw [List.length_append]; omega)
      (by simp only [List.length_append] at htotal ⊢; omega), ih (by omega)]
    rfl

end Chunked

/-! ## Bodies off the front of a buffer -/

namespace Framing

open Chunked

/-- Whatever the limit is, the bodies that are read are those of the grammar that are within it but for the last
empty line. -/
theorem decode_chunked_iff {limit : Nat} {buffer body rest : Bytes} :
    chunked.decode limit buffer = .ok (some (body, rest)) ↔
      ∃ w : Wire, buffer = w.bytes ++ rest ∧ body = w.content ∧ w.bytes.length ≤ limit + 2 := by
  constructor
  · intro h
    obtain ⟨w, rfl, rfl, hsize⟩ := exists_of_chunks (Nat.le_refl _) h
    rw [List.length_append] at hsize
    exact ⟨w, rfl, rfl, by omega⟩
  · rintro ⟨w, rfl, rfl, hsize⟩
    exact chunks_append_wire (by rw [List.length_append]; omega) w (Nat.le_refl _)

/-- A chunked body of the grammar is taken off the front of whatever follows it. -/
theorem take_chunked_append {limit : Nat} {w : Wire} (hsize : w.bytes.length ≤ limit + 2) (after : Bytes) :
    chunked.take limit (w.bytes ++ after) = (.ok (some w.content), after) :=
  take_eq_some_iff.2 (decode_chunked_iff.2 ⟨w, rfl, rfl, hsize⟩)

/-- The chunked bodies that are taken off a buffer that is within the limit are those of the grammar at its front.
There is at most one, what follows it stays and does not matter, and where there is none nothing is taken. -/
theorem take_chunked_grammar {limit : Nat} {buffer : Bytes} (hlimit : buffer.length ≤ limit) :
    (∀ body rest, chunked.take limit buffer = (.ok (some body), rest) ↔
      ∃ w : Wire, buffer = w.bytes ++ rest ∧ w.content = body) ∧
    (∀ w w' : Wire, w.bytes <+: buffer → w'.bytes <+: buffer →
      w.bytes.length = w'.bytes.length ∧ w.content = w'.content) ∧
    (∀ w : Wire, w.bytes <+: buffer → ∀ after,
      chunked.take limit (w.bytes ++ after) = (.ok (some w.content), after)) ∧
    ((∀ body, (chunked.take limit buffer).1 ≠ .ok (some body)) → (chunked.take limit buffer).2 = buffer) := by
  have htaken : ∀ w : Wire, w.bytes <+: buffer → ∀ after,
      chunked.take limit (w.bytes ++ after) = (.ok (some w.content), after) := by
    intro w hw after
    have hle := hw.length_le
    exact take_chunked_append (by omega) after
  refine ⟨fun body rest => ?_, ?_, htaken, take_of_ne_some⟩
  · constructor
    · intro h
      obtain ⟨w, rfl, rfl, -⟩ := decode_chunked_iff.1 (take_eq_some_iff.1 h)
      exact ⟨w, rfl, rfl⟩
    · rintro ⟨w, rfl, rfl⟩
      exact htaken w (List.prefix_append _ _) rest
  · rintro w w' ⟨rest, rfl⟩ ⟨rest', hrest⟩
    have hfirst := htaken w (List.prefix_append _ _) rest
    have hsecond := htaken w' ⟨rest', hrest⟩ rest'
    rw [hrest, hfirst, Prod.mk.injEq, Except.ok.injEq, Option.some.injEq] at hsecond
    obtain ⟨hcontent, rfl⟩ := hsecond
    exact ⟨congrArg List.length (List.append_cancel_right hrest).symm, hcontent⟩

/-- Two chunks, the first with an extension and with data that looks like the end of a line, a trailer, and the
beginning of what comes next. -/
theorem take_chunked_grammar_pipelined :
    let b := Bytes.ofText "2 ;a=b\r\n\r\n\r\n1\r\nx\r\n0\r\nT: u\r\n\r\nGET"
    b.length ≤ 32 ∧ chunked.take 32 b = (.ok (some (Bytes.ofText "\r\nx")), Bytes.ofText "GET") := by
  intro b
  have hlimit : b.length ≤ 32 := by decide
  let first : SizeLine := ⟨Bytes.ofText "2", [32], some (Bytes.ofText "a=b"), List.forall_mem_singleton.2 rfl,
    by decide, List.forall_mem_singleton.2 (.inl rfl), by decide⟩
  let second : SizeLine := ⟨Bytes.ofText "1", [], none, List.forall_mem_singleton.2 rfl, by decide,
    List.forall_mem_nil _, by decide⟩
  let last : SizeLine := ⟨Bytes.ofText "0", [], none, List.forall_mem_singleton.2 rfl, by decide,
    List.forall_mem_nil _, by decide⟩
  let chunks : List Chunk :=
    [⟨first, Bytes.ofText "\r\n", by decide, by decide⟩, ⟨second, Bytes.ofText "x", by decide, by decide⟩]
  let w : Wire := ⟨chunks, last, by decide, [⟨Bytes.ofText "T: u", by decide, by decide⟩]⟩
  exact ⟨hlimit, ((take_chunked_grammar hlimit).1 _ _).2 ⟨w, by decide, by decide⟩⟩

end Framing

end Hypertext
