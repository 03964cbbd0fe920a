/-
Chunked bodies as they are written: chunks one after another, each with a line that tells its size, and after the chunk
of size zero trailer lines and an empty line. A body that has this form and is read at all is read to its end and no
further, and what is read is the data of its chunks.
-/
import Hypertext.Proofs.Message.Delimited
import Hypertext.Proofs.Message.RawHead

namespace Hypertext

namespace Bytes

/-- The number that hexadecimal digits write after those of another number. -/
def hexadecimal (before : Nat) (b : Bytes) : Nat := b.foldl (fun n d => 16 * n + (hexValue? d).getD 0) before

/-- Bytes are hexadecimal digits that write a number. -/
structure DenotesHex (b : Bytes) (n : Nat) : Prop where
  nonempty : b ≠ []
  digits : ∀ d ∈ b, (hexValue? d).isSome = true
  value : b.hexadecimal 0 = n

end Bytes

namespace Chunked

/-- The line that opens a chunk: the digits of its size, then anything that is neither a digit nor the end of the line. -/
structure IsSizeLine (line : Bytes) (size : Nat) : Prop where
  split : ∃ digits extension, line = digits ++ extension ∧ digits.DenotesHex size ∧
    ∀ b ∈ extension.head?, Bytes.hexValue? b = none
  unbroken : ∀ b ∈ line, Head.isLineByte b = false

/-- A line that is not empty. -/
def IsTrailer (line : Bytes) : Prop := line ≠ [] ∧ ∀ b ∈ line, Head.isLineByte b = false

/-- Bytes that write a content in chunks. -/
inductive Encodes : Bytes → Bytes → Prop
  | last {line : Bytes} {trailers : List Bytes} (size : IsSizeLine line 0) (lines : ∀ t ∈ trailers, IsTrailer t) :
      Encodes (line ++ (Bytes.crlf ++ (trailers.flatMap (· ++ Bytes.crlf) ++ Bytes.crlf))) []
  | chunk {line data wire content : Bytes} (size : IsSizeLine line data.length) (some : data ≠ [])
      (others : Encodes wire content) :
      Encodes (line ++ (Bytes.crlf ++ (data ++ (Bytes.crlf ++ wire)))) (data ++ content)

/-! ## Size lines -/

theorem sizeDigits_eq_done {after rest : Bytes} {m : Nat} (hafter : ∀ b ∈ after.head?, Bytes.hexValue? b = none) :
    ∀ {digits : Bytes} {room n : Nat}, (∀ d ∈ digits, (Bytes.hexValue? d).isSome = true) →
      sizeDigits room n (digits ++ after) = .done m rest → m = digits.hexadecimal n ∧ rest = after
  | [], room, n, _, h => by
    cases after with
    | nil => simp [sizeDigits] at h
    | cons b after =>
      have hb := hafter b rfl
      simp only [List.nil_append, sizeDigits, hb] at h
      cases h
      exact ⟨rfl, rfl⟩
  | d :: digits, room, n, hdigits, h => by
    obtain ⟨v, hv⟩ := Option.isSome_iff_exists.1 (hdigits d List.mem_cons_self)
    cases room with
    | zero => simp [sizeDigits, hv] at h
    | succ room =>
      have hstep : sizeDigits (room + 1) n (d :: (digits ++ after)) = sizeDigits room (16 * n + v) (digits ++ after) := by
        simp [sizeDigits, hv]
      rw [List.cons_append, hstep] at h
      obtain ⟨rfl, rfl⟩ := sizeDigits_eq_done hafter (fun x hx => hdigits x (List.mem_cons_of_mem _ hx)) h
      refine ⟨?_, rfl⟩
      rw [Bytes.hexadecimal, Bytes.hexadecimal, List.foldl_cons, hv]
      rfl

/-- What stands before the first byte of a kind, and what stands after it. -/
theorem append_cons_injective {c : UInt8} : ∀ {a b x y : Bytes}, c ∉ a → c ∉ b → a ++ c :: x = b ++ c :: y →
    a = b ∧ x = y
  | [], [], x, y, _, _, h => by
    cases h
    exact ⟨rfl, rfl⟩
  | [], d :: b, x, y, _, hb, h => by
    cases h
    exact absurd List.mem_cons_self hb
  | d :: a, [], x, y, ha, _, h => by
    cases h
    exact absurd List.mem_cons_self ha
  | d :: a, e :: b, x, y, ha, hb, h => by
    rw [List.cons_append, List.cons_append, List.cons.injEq] at h
    obtain ⟨rfl, h⟩ := h
    obtain ⟨rfl, rfl⟩ := append_cons_injective (fun hc => ha (List.mem_cons_of_mem _ hc))
      (fun hc => hb (List.mem_cons_of_mem _ hc)) h
    exact ⟨rfl, rfl⟩

/-- A size line that is read is read to its end. -/
theorem sizeLine_eq_done {line after rest : Bytes} {size m : Nat} (hline : IsSizeLine line size)
    (h : sizeLine (line ++ (Bytes.crlf ++ after)) = .done m rest) : m = size ∧ rest = after := by
  obtain ⟨⟨digits, extension, rfl, hdigits, hfirst⟩, hunbroken⟩ := hline
  have hreturn : (13 : UInt8) ∉ extension := fun hmem => by
    have hbroken := hunbroken 13 (List.mem_append_right _ hmem)
    cases hbroken
  have hafter : ∀ b ∈ (extension ++ (Bytes.crlf ++ after)).head?, Bytes.hexValue? b = none := by
    intro b hb
    cases extension with
    | nil =>
      cases hb
      rfl
    | cons c extension => exact hfirst b hb
  rw [List.append_assoc] at h
  obtain ⟨n, s₁, h₁, hgap⟩ := Scanner.bind_eq_done h
  obtain ⟨gap, s₂, h₂, hmark⟩ := Scanner.bind_eq_done hgap
  obtain ⟨mark, s₃, h₃, hrest⟩ := Scanner.bind_eq_done hmark
  clear h hgap hmark
  obtain ⟨rfl, rfl⟩ := sizeDigits_eq_done hafter hdigits.digits h₁
  obtain ⟨hgap, hblank⟩ := Scanner.span_eq_done h₂
  obtain ⟨rfl, hmark⟩ := Scanner.byte_eq_done h₃
  have hnone : (13 : UInt8) ∉ gap := fun hmem => absurd (hblank 13 hmem) (by decide)
  -- the line ends at its first carriage return, wherever the scanner finds that
  have hend : ∀ {before s₄ : Bytes}, (13 : UInt8) ∉ before → extension ++ (Bytes.crlf ++ after) = before ++ 13 :: s₄ →
      (Scanner.byte (· == 10) () >>= fun _ => (Pure.pure (digits.hexadecimal 0) : Scanner Unit Nat)) s₄ = .done m rest →
      m = size ∧ rest = after := by
    intro before s₄ hbefore hsplit hdone
    obtain ⟨-, rfl⟩ := append_cons_injective hreturn hbefore hsplit
    cases hdone
    exact ⟨hdigits.value, rfl⟩
  rcases Bool.or_eq_true_iff.1 hmark with hmark | hmark
  · obtain rfl := eq_of_beq hmark
    exact hend hnone hgap hrest
  · obtain rfl := eq_of_beq hmark
    obtain ⟨comment, s₄, h₄, hnext⟩ := Scanner.bind_eq_done hrest
    obtain ⟨b, s₅, h₅, hbyte⟩ := Scanner.bind_eq_done hnext
    obtain ⟨rfl, hcomment⟩ := Scanner.span_eq_done h₄
    cases s₄ with
    | nil => cases h₅
    | cons c s₄ =>
      cases h₅
      have hb : b = 13 := by
        obtain ⟨-, hdrop, -⟩ := Scanner.span_eq_done_iff.1 h₄
        have hnot := List.head?_dropWhile_not (· != 13) (comment ++ b :: s₅)
        rw [hdrop] at hnot
        simpa using hnot
      subst hb
      have hbefore : (13 : UInt8) ∉ gap ++ 59 :: comment := by
        rw [List.mem_append, List.mem_cons]
        rintro (hmem | hmem | hmem)
        · exact hnone hmem
        · cases hmem
        · exact absurd (hcomment 13 hmem) (by decide)
      exact hend hbefore (by rw [hgap, List.append_assoc]; rfl) hbyte

/-! ## Trailers -/

theorem crlf_infix_cons_iff {b : UInt8} {line : Bytes} :
    Bytes.crlf <:+: b :: line ↔ (b = 13 ∧ ∃ x, line = 10 :: x) ∨ Bytes.crlf <:+: line := by
  rw [List.infix_cons_iff, Bytes.crlf, List.cons_prefix_cons]
  constructor
  · rintro (⟨rfl, x, rfl⟩ | h)
    · exact .inl ⟨rfl, x, rfl⟩
    · exact .inr h
  · rintro (⟨rfl, x, rfl⟩ | h)
    · exact .inl ⟨rfl, x, rfl⟩
    · exact .inr h

/-- A byte that does not begin the end of a line does not when the end of the line follows. -/
theorem not_crlf_of_line {b : UInt8} {line : Bytes} (h : ¬ Bytes.crlf <:+: b :: line) (after : Bytes) :
    ∀ x, b = 13 → line ++ (Bytes.crlf ++ after) = 10 :: x → False := by
  intro x hb hx
  cases line with
  | nil => cases hx
  | cons c line =>
    cases hx
    exact h (crlf_infix_cons_iff.2 (.inl ⟨hb, line, rfl⟩))

/-- The rest of a line is passed up to its end. -/
theorem trailers_append_line {total limit : Nat} (after : Bytes) : ∀ {line : Bytes}, ¬ Bytes.crlf <:+: line →
    trailers total limit false (line ++ (Bytes.crlf ++ after)) = trailers total limit true after
  | [], _ => by
    show trailers total limit false (13 :: 10 :: after) = _
    rw [trailers]
  | b :: line, h => by
    rw [List.cons_append, trailers]
    · exact trailers_append_line after fun hin => h (crlf_infix_cons_iff.2 (.inr hin))
    · exact not_crlf_of_line h after

theorem not_crlf_infix_of_unbroken : ∀ {line : Bytes}, (∀ b ∈ line, Head.isLineByte b = false) → ¬ Bytes.crlf <:+: line
  | [], _ => by simp [Bytes.crlf]
  | b :: line, h => by
    rw [crlf_infix_cons_iff]
    rintro (⟨rfl, -⟩ | hin)
    · have hbroken := h 13 List.mem_cons_self
      cases hbroken
    · exact not_crlf_infix_of_unbroken (fun c hc => h c (List.mem_cons_of_mem _ hc)) hin

/-- Trailers that are passed are passed to their end. -/
theorem trailers_eq_some {total limit : Nat} {body rest : Bytes} : ∀ {lines : List Bytes}, (∀ t ∈ lines, IsTrailer t) →
    trailers total limit true (lines.flatMap (· ++ Bytes.crlf) ++ Bytes.crlf) = .ok (some (body, rest)) →
      body = [] ∧ rest = []
  | [], _, h => by
    change trailers total limit true [13, 10] = _ at h
    rw [trailers] at h
    split at h
    · cases h
    · cases h
      exact ⟨rfl, rfl⟩
  | line :: lines, hlines, h => by
    obtain ⟨hne, hline⟩ := hlines line List.mem_cons_self
    obtain ⟨b, line, rfl⟩ := List.exists_cons_of_ne_nil hne
    have hb : b ≠ 13 := by
      rintro rfl
      have hbroken := hline 13 List.mem_cons_self
      cases hbroken
    rw [List.flatMap_cons, List.append_assoc, List.append_assoc, List.cons_append, trailers] at h
    · split at h
      · cases h
      · rw [trailers_append_line _ (not_crlf_infix_of_unbroken fun c hc => hline c (List.mem_cons_of_mem _ hc))] at h
        exact trailers_eq_some (fun t ht => hlines t (List.mem_cons_of_mem _ ht)) h
    · intro x hx
      exact absurd hx hb

/-! ## Chunks -/

/-- A body in chunks that is read is read to its end, and what is read is the data. -/
theorem chunks_of_encodes {wire content : Bytes} (hw : Encodes wire content) {total limit : Nat} {body rest : Bytes}
    (h : chunks total limit wire = .ok (some (body, rest))) : body = content ∧ rest = [] := by
  induction hw generalizing body with
  | @last line trailers size lines =>
    rcases chunks_eq_some_iff.1 h with ⟨r, hs, hr⟩ | ⟨n, r, b, hn, hs, -⟩
    · obtain ⟨-, rfl⟩ := sizeLine_eq_done size hs
      exact trailers_eq_some lines hr
    · exact absurd (sizeLine_eq_done size hs).1 hn
  | @chunk line data wire content size some others ih =>
    rcases chunks_eq_some_iff.1 h with ⟨r, hs, hr⟩ | ⟨n, r, b, hn, hs, -, -, -, hb, rfl⟩
    · have hzero := (sizeLine_eq_done size hs).1
      exact absurd (List.eq_nil_of_length_eq_zero hzero.symm) some
    · obtain ⟨rfl, rfl⟩ := sizeLine_eq_done size hs
      have hdrop : (data ++ (Bytes.crlf ++ wire)).drop (data.length + 2) = wire := by
        rw [← List.drop_drop, List.drop_left]
        rfl
      rw [hdrop] at hb
      obtain ⟨rfl, rfl⟩ := ih hb
      rw [List.take_left]
      exact ⟨rfl, rfl⟩

end Chunked

end Hypertext
