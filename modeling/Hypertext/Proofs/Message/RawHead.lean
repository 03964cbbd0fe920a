/-
Heads of requests as they stand on the wire: empty lines, a first line, header lines and the empty line that ends them.
Whatever head is read stood there in this form and in no other, and its fields are what its header lines hold.
-/
import Hypertext.Message.Request
import Hypertext.Proofs.Message.FieldText
import Mathlib.Data.List.TakeWhile

namespace Hypertext

namespace Head

/-- A carriage return or a line feed. -/
def isLineByte (b : UInt8) : Bool := b == 13 || b == 10

/-- How a line can end. -/
def lineEnds : List Bytes := [Bytes.crlf, [10]]

/-- Bytes without the spaces and tabs around them. -/
def strip (b : Bytes) : Bytes := ((b.dropWhile isGap).reverse.dropWhile isGap).reverse

end Head

/-- A header line: what stands before its colon, what stands after it, and how the line ends. -/
@[ext]
structure RawLine where
  name : Bytes
  value : Bytes
  ending : Bytes
  nonempty : name ≠ []
  isName : ∀ b ∈ name, Head.isTokenByte b = true
  isValue : ∀ b ∈ value, Head.isValueByte b = true
  ends : ending ∈ Head.lineEnds

/-- A head: the ends of the empty lines before it, its first line, its header lines, and how the last line ends. -/
structure RawHead where
  skipped : List Bytes
  first : Bytes
  firstEnd : Bytes
  lines : List RawLine
  ending : Bytes
  skips : ∀ e ∈ skipped, e ∈ Head.lineEnds
  nonempty : first ≠ []
  isLine : ∀ b ∈ first, Head.isLineByte b = false
  firstEnds : firstEnd ∈ Head.lineEnds
  ends : ending ∈ Head.lineEnds

namespace RawLine

def content (l : RawLine) : Bytes := l.name ++ 58 :: l.value

def bytes (l : RawLine) : Bytes := l.content ++ l.ending

/-- The field that a line holds. -/
def field (l : RawLine) : FieldLine := ⟨Head.asciiText l.name, Head.strip l.value⟩

end RawLine

def RawHead.bytes (w : RawHead) : Bytes :=
  w.skipped.flatten ++ (w.first ++ w.firstEnd ++ (w.lines.flatMap RawLine.bytes ++ w.ending))

/-! ## A head that is read stood there -/

namespace Scanner

variable {ε α β : Type} {k : UInt8 → Bool} {s rest : Bytes}

/-- A scanner that only takes bytes of a kind. -/
def Within (k : UInt8 → Bool) (p : Scanner ε α) : Prop :=
  ∀ s a rest, p s = .done a rest → ∃ taken, s = taken ++ rest ∧ ∀ b ∈ taken, k b = true

theorem Within.bind {p : Scanner ε α} {f : α → Scanner ε β} (hp : p.Within k) (hf : ∀ a, (f a).Within k) :
    (p >>= f).Within k := by
  intro s b rest h
  obtain ⟨a, mid, h1, h2⟩ := bind_eq_done h
  obtain ⟨taken, rfl, htaken⟩ := hp _ _ _ h1
  obtain ⟨taken', rfl, htaken'⟩ := hf a _ _ _ h2
  refine ⟨taken ++ taken', (List.append_assoc _ _ _).symm, ?_⟩
  intro b hb
  rcases List.mem_append.1 hb with hb | hb
  · exact htaken b hb
  · exact htaken' b hb

theorem pure_within (a : α) : (Pure.pure a : Scanner ε α).Within k := by
  intro s b rest h
  cases h
  exact ⟨[], rfl, fun _ hb => absurd hb List.not_mem_nil⟩

theorem fail_within (e : ε) : (fail e : Scanner ε α).Within k := by
  intro s b rest h
  cases h

theorem byte_eq_done {p : UInt8 → Bool} {e : ε} {b : UInt8} (h : byte p e s = .done b rest) :
    s = b :: rest ∧ p b = true := by
  cases s with
  | nil => cases h
  | cons c s =>
    change (if p c then Pure.pure c else fail e : Scanner ε UInt8) s = _ at h
    split at h
    · next hc =>
      cases h
      exact ⟨rfl, hc⟩
    · cases h

theorem byte_within {p : UInt8 → Bool} (e : ε) (hp : ∀ b, p b = true → k b = true) : (byte p e).Within k := by
  intro s b rest h
  obtain ⟨rfl, hb⟩ := byte_eq_done h
  exact ⟨[b], rfl, fun c hc => List.mem_singleton.1 hc ▸ hp b hb⟩

theorem span_eq_done {p : UInt8 → Bool} {taken : Bytes} (h : (span p : Scanner ε Bytes) s = .done taken rest) :
    s = taken ++ rest ∧ ∀ b ∈ taken, p b = true := by
  obtain ⟨rfl, rfl, -⟩ := span_eq_done_iff.1 h
  exact ⟨List.takeWhile_append_dropWhile.symm, fun b hb => List.mem_takeWhile_imp hb⟩

theorem span_within {p : UInt8 → Bool} (hp : ∀ b, p b = true → k b = true) : (span p : Scanner ε Bytes).Within k := by
  intro s taken rest h
  obtain ⟨rfl, htaken⟩ := span_eq_done h
  exact ⟨taken, rfl, fun b hb => hp b (htaken b hb)⟩

theorem literal_within (e : ε) : ∀ {bytes : Bytes}, (∀ b ∈ bytes, k b = true) → (literal e bytes).Within k
  | [], _ => pure_within ()
  | c :: bytes, h => by
    refine .bind (byte_within e ?_) fun _ => literal_within e fun b hb => h b (List.mem_cons_of_mem _ hb)
    intro b hb
    rw [eq_of_beq hb]
    exact h c List.mem_cons_self

theorem peek_eq_done {b : UInt8} (h : (peek : Scanner ε UInt8) s = .done b rest) : rest = s := by
  cases s with
  | nil => cases h
  | cons c s =>
    cases h
    rfl

theorem newline_eq_done {e : ε} (h : newline e s = .done () rest) : ∃ ending ∈ Head.lineEnds, s = ending ++ rest := by
  obtain ⟨b, mid, h1, h2⟩ := bind_eq_done h
  cases s with
  | nil => cases h1
  | cons c s =>
    cases h1
    split at h2
    · next hb =>
      obtain ⟨d, last, h3, h4⟩ := bind_eq_done h2
      obtain ⟨rfl, hd⟩ := byte_eq_done h3
      cases h4
      rw [eq_of_beq hb, eq_of_beq hd]
      exact ⟨Bytes.crlf, List.mem_cons_self, rfl⟩
    · split at h2
      · cases h2
      · next hb =>
        cases h2
        have hb : b = 10 := by simpa using hb
        rw [hb]
        exact ⟨[10], List.mem_cons_of_mem _ List.mem_cons_self, rfl⟩

end Scanner

namespace Head

open Scanner

variable {s rest : Bytes}

theorem not_isLineByte_of_isTokenByte : ∀ b : UInt8, isTokenByte b = true → (!isLineByte b) = true :=
  Bytes.forall_byte (by decide +kernel)

theorem not_isLineByte_of_isTargetByte : ∀ b : UInt8, isTargetByte b = true → (!isLineByte b) = true :=
  Bytes.forall_byte (by decide +kernel)

theorem not_isLineByte_of_isValueByte : ∀ b : UInt8, isValueByte b = true → (!isLineByte b) = true :=
  Bytes.forall_byte (by decide +kernel)

theorem skipEmptyLines_eq_done (h : skipEmptyLines s = .done () rest) :
    ∃ skipped : List Bytes, (∀ e ∈ skipped, e ∈ lineEnds) ∧ s = skipped.flatten ++ rest := by
  fun_induction skipEmptyLines s with
  | case1 | case4 | case5 => cases h
  | case2 s ih =>
    obtain ⟨skipped, hskipped, rfl⟩ := ih h
    refine ⟨[10] :: skipped, ?_, rfl⟩
    intro e he
    rcases List.mem_cons.1 he with rfl | he
    · exact List.mem_cons_of_mem _ List.mem_cons_self
    · exact hskipped e he
  | case3 s ih =>
    obtain ⟨skipped, hskipped, rfl⟩ := ih h
    refine ⟨Bytes.crlf :: skipped, ?_, rfl⟩
    intro e he
    rcases List.mem_cons.1 he with rfl | he
    · exact List.mem_cons_self
    · exact hskipped e he
  | case6 =>
    cases h
    exact ⟨[], fun _ he => absurd he List.not_mem_nil, rfl⟩

theorem method_within : method.Within (!isLineByte ·) :=
  .bind (byte_within _ not_isLineByte_of_isTokenByte) fun _ =>
    .bind (span_within not_isLineByte_of_isTokenByte) fun _ =>
      .bind (byte_within _ (by simp [isLineByte])) fun _ => pure_within _

theorem target_within : target.Within (!isLineByte ·) := by
  refine .bind (span_within not_isLineByte_of_isTargetByte) fun bytes =>
    .bind (byte_within _ (by simp [isLineByte])) fun _ => ?_
  split
  · exact pure_within _
  · exact fail_within _

theorem version_within : version.Within (!isLineByte ·) := by
  refine .bind (literal_within _ (by decide +kernel)) fun _ => .bind (byte_within _ ?_) fun _ => pure_within _
  exact Bytes.forall_byte (by decide +kernel)

theorem isValueByte_of_isGap : ∀ b : UInt8, isGap b = true → isValueByte b = true :=
  Bytes.forall_byte (by decide +kernel)

/-- The gap before a value and the gap after it are dropped. -/
theorem strip_append {gap value : Bytes} (hgap : ∀ b ∈ gap, isGap b = true)
    (hvalue : ∀ b ∈ value.head?, isGap b = false) :
    strip (gap ++ value) = (value.reverse.dropWhile isGap).reverse := by
  rw [strip, List.dropWhile_append_of_pos hgap, dropWhile_of_head? hvalue]

theorem field_eq_done {f : FieldLine} (h : field s = .done f rest) :
    ∃ l : RawLine, l.field = f ∧ s = l.bytes ++ rest := by
  obtain ⟨b, s₁, h₁, h⟩ := bind_eq_done h
  obtain ⟨name, s₂, h₂, h⟩ := bind_eq_done h
  obtain ⟨colon, s₃, h₃, h⟩ := bind_eq_done h
  obtain ⟨gap, s₄, h₄, h⟩ := bind_eq_done h
  obtain ⟨value, s₅, h₅, h⟩ := bind_eq_done h
  obtain ⟨_, s₆, h₆, h⟩ := bind_eq_done h
  cases h
  obtain ⟨rfl, hb⟩ := byte_eq_done h₁
  obtain ⟨rfl, hname⟩ := span_eq_done h₂
  obtain ⟨rfl, hcolon⟩ := byte_eq_done h₃
  obtain rfl := eq_of_beq hcolon
  obtain ⟨rfl, hgap⟩ := span_eq_done h₄
  obtain ⟨-, hfirst, -⟩ := span_eq_done_iff.1 h₄
  obtain ⟨rfl, hvalue⟩ := span_eq_done h₅
  obtain ⟨ending, hending, rfl⟩ := newline_eq_done h₆
  -- the value begins where the gap ends
  have hvalue' : ∀ c ∈ value.head?, isGap c = false := by
    intro c hc
    have hnot := List.head?_dropWhile_not isGap (gap ++ (value ++ (ending ++ rest)))
    rw [hfirst, List.head?_append, Option.mem_def.1 hc] at hnot
    exact hnot
  refine ⟨⟨b :: name, gap ++ value, ending, List.cons_ne_nil _ _, ?_, ?_, hending⟩, ?_, ?_⟩
  · intro c hc
    rcases List.mem_cons.1 hc with rfl | hc
    · exact hb
    · exact hname c hc
  · intro c hc
    rcases List.mem_append.1 hc with hc | hc
    · exact isValueByte_of_isGap c (hgap c hc)
    · exact hvalue c hc
  · show FieldLine.mk _ _ = _
    rw [strip_append hgap hvalue']
  · simp [RawLine.bytes, RawLine.content]

theorem fields_eq_done : ∀ {slots : Nat} {s rest : Bytes} {fs : List FieldLine}, fields slots s = .done fs rest →
    ∃ (lines : List RawLine) (ending : Bytes), ending ∈ lineEnds ∧ lines.map RawLine.field = fs ∧
      s = lines.flatMap RawLine.bytes ++ ending ++ rest
  | 0, s, rest, fs, h => by
    obtain ⟨b, s₁, h₁, h₂⟩ := bind_eq_done h
    obtain rfl := peek_eq_done h₁
    split at h₂
    · obtain ⟨_, s₂, h₃, h₄⟩ := bind_eq_done h₂
      cases h₄
      obtain ⟨ending, hending, rfl⟩ := newline_eq_done h₃
      exact ⟨[], ending, hending, rfl, rfl⟩
    · obtain ⟨f, s₂, h₃, h₄⟩ := bind_eq_done h₂
      cases h₄
  | slots + 1, s, rest, fs, h => by
    obtain ⟨b, s₁, h₁, h₂⟩ := bind_eq_done h
    obtain rfl := peek_eq_done h₁
    split at h₂
    · obtain ⟨_, s₂, h₃, h₄⟩ := bind_eq_done h₂
      cases h₄
      obtain ⟨ending, hending, rfl⟩ := newline_eq_done h₃
      exact ⟨[], ending, hending, rfl, rfl⟩
    · obtain ⟨f, s₂, h₃, h₄⟩ := bind_eq_done h₂
      obtain ⟨fs, s₃, h₅, h₆⟩ := bind_eq_done h₄
      cases h₆
      obtain ⟨l, rfl, rfl⟩ := field_eq_done h₃
      obtain ⟨lines, ending, hending, rfl, rfl⟩ := fields_eq_done h₅
      exact ⟨l :: lines, ending, hending, rfl, by simp⟩

/-- A head that is read stood there, with a line for each of its fields. -/
theorem request_eq_done {h : RequestHead} (hs : request s = .done h rest) :
    ∃ w : RawHead, s = w.bytes ++ rest ∧ h.fields = w.lines.map RawLine.field := by
  obtain ⟨_, s₁, h₁, hs⟩ := bind_eq_done hs
  obtain ⟨m, s₂, h₂, hs⟩ := bind_eq_done hs
  obtain ⟨t, s₃, h₃, hs⟩ := bind_eq_done hs
  obtain ⟨v, s₄, h₄, hs⟩ := bind_eq_done hs
  obtain ⟨_, s₅, h₅, hs⟩ := bind_eq_done hs
  obtain ⟨fs, s₆, h₆, hs⟩ := bind_eq_done hs
  cases hs
  have hfirst := method_consumes _ _ _ h₂
  obtain ⟨skipped, hskipped, rfl⟩ := skipEmptyLines_eq_done h₁
  obtain ⟨method, rfl, hmethod⟩ := method_within _ _ _ h₂
  obtain ⟨target, rfl, htarget⟩ := target_within _ _ _ h₃
  obtain ⟨version, rfl, hversion⟩ := version_within _ _ _ h₄
  obtain ⟨firstEnd, hfirstEnd, rfl⟩ := newline_eq_done h₅
  obtain ⟨lines, ending, hending, rfl, rfl⟩ := fields_eq_done h₆
  refine ⟨⟨skipped, method ++ (target ++ version), firstEnd, lines, ending, hskipped, ?_, ?_, hfirstEnd, hending⟩, ?_, rfl⟩
  · intro hnil
    rw [List.append_eq_nil_iff] at hnil
    rw [hnil.1] at hfirst
    exact Nat.lt_irrefl _ hfirst
  · intro b hb
    rcases List.mem_append.1 hb with hb | hb
    · simpa using hmethod b hb
    · rcases List.mem_append.1 hb with hb | hb
      · simpa using htarget b hb
      · simpa using hversion b hb
  · simp [RawHead.bytes]

/-! ## A head stands there in one form only -/

theorem lineEnds_cases {e : Bytes} (h : e ∈ lineEnds) : e = [13, 10] ∨ e = [10] := by
  simpa [lineEnds, Bytes.crlf] using h

/-- The end of a line begins with a byte that is in no line. -/
theorem isLineByte_of_end {e x y : Bytes} {c : UInt8} (he : e ∈ lineEnds) (h : e ++ x = c :: y) :
    isLineByte c = true := by
  rcases lineEnds_cases he with rfl | rfl
  · cases h
    rfl
  · cases h
    rfl

theorem line_injective : ∀ {a b e f x y : Bytes}, (∀ c ∈ a, isLineByte c = false) → (∀ c ∈ b, isLineByte c = false) →
    e ∈ lineEnds → f ∈ lineEnds → a ++ (e ++ x) = b ++ (f ++ y) → a = b ∧ e = f ∧ x = y
  | [], [], e, f, x, y, _, _, he, hf, h => by
    rcases lineEnds_cases he with rfl | rfl
    · rcases lineEnds_cases hf with rfl | rfl
      · cases h
        exact ⟨rfl, rfl, rfl⟩
      · cases h
    · rcases lineEnds_cases hf with rfl | rfl
      · cases h
      · cases h
        exact ⟨rfl, rfl, rfl⟩
  | [], c :: b, e, f, x, y, _, hb, he, _, h => by
    have hc := isLineByte_of_end he h
    rw [hb c List.mem_cons_self] at hc
    cases hc
  | c :: a, [], e, f, x, y, ha, _, _, hf, h => by
    have hc := isLineByte_of_end hf h.symm
    rw [ha c List.mem_cons_self] at hc
    cases hc
  | c :: a, d :: b, e, f, x, y, ha, hb, he, hf, h => by
    rw [List.cons_append, List.cons_append, List.cons.injEq] at h
    obtain ⟨rfl, h⟩ := h
    obtain ⟨rfl, rfl, rfl⟩ := line_injective (fun x hx => ha x (List.mem_cons_of_mem _ hx))
      (fun x hx => hb x (List.mem_cons_of_mem _ hx)) he hf h
    exact ⟨rfl, rfl, rfl⟩

end Head

namespace RawLine

open Head

theorem content_isLine (l : RawLine) : ∀ c ∈ l.content, isLineByte c = false := by
  intro c hc
  rcases List.mem_append.1 hc with hc | hc
  · simpa using not_isLineByte_of_isTokenByte c (l.isName c hc)
  · rcases List.mem_cons.1 hc with rfl | hc
    · rfl
    · simpa using not_isLineByte_of_isValueByte c (l.isValue c hc)

theorem content_ne_nil (l : RawLine) : l.content ≠ [] := by
  simp [content]

/-- A line falls into its name and its value in one way, at its first colon. -/
theorem content_injective {l m : RawLine} (h : l.content = m.content) : l.name = m.name ∧ l.value = m.value := by
  have hcolon : ∀ (k : RawLine), k.content.takeWhile isTokenByte = k.name := by
    intro k
    rw [content, List.takeWhile_append_of_pos k.isName, List.takeWhile_cons_of_neg (by decide), List.append_nil]
  have hname : l.name = m.name := by rw [← hcolon l, ← hcolon m, h]
  rw [content, content, hname, List.append_cancel_left_eq, List.cons.injEq] at h
  exact ⟨hname, h.2⟩

theorem lines_injective : ∀ {ls ms : List RawLine} {e f x y : Bytes}, e ∈ lineEnds → f ∈ lineEnds →
    ls.flatMap bytes ++ (e ++ x) = ms.flatMap bytes ++ (f ++ y) → ls = ms ∧ x = y
  | [], [], e, f, x, y, he, hf, h => by
    obtain ⟨-, -, rfl⟩ := line_injective (a := []) (b := []) (fun _ hc => absurd hc List.not_mem_nil)
      (fun _ hc => absurd hc List.not_mem_nil) he hf h
    exact ⟨rfl, rfl⟩
  | [], m :: ms, e, f, x, y, he, hf, h => by
    rw [List.flatMap_cons, bytes, List.append_assoc, List.append_assoc] at h
    obtain ⟨hnil, -⟩ := line_injective (a := []) (fun _ hc => absurd hc List.not_mem_nil) m.content_isLine he m.ends h
    exact absurd hnil.symm m.content_ne_nil
  | l :: ls, [], e, f, x, y, he, hf, h => by
    rw [List.flatMap_cons, bytes, List.append_assoc, List.append_assoc] at h
    obtain ⟨hnil, -⟩ := line_injective (b := []) l.content_isLine (fun _ hc => absurd hc List.not_mem_nil) l.ends hf h
    exact absurd hnil l.content_ne_nil
  | l :: ls, m :: ms, e, f, x, y, he, hf, h => by
    rw [List.flatMap_cons, List.flatMap_cons, bytes, bytes, List.append_assoc, List.append_assoc, List.append_assoc,
      List.append_assoc] at h
    obtain ⟨hcontent, hends, h⟩ := line_injective l.content_isLine m.content_isLine l.ends m.ends h
    obtain ⟨hname, hvalue⟩ := content_injective hcontent
    obtain ⟨rfl, rfl⟩ := lines_injective he hf h
    refine ⟨?_, rfl⟩
    rw [RawLine.ext hname hvalue hends]

end RawLine

namespace RawHead

open Head

theorem skipped_injective {a b e f x y : Bytes} (ha : a ≠ []) (hb : b ≠ []) (haline : ∀ c ∈ a, isLineByte c = false)
    (hbline : ∀ c ∈ b, isLineByte c = false) (he : e ∈ lineEnds) (hf : f ∈ lineEnds) :
    ∀ {es fs : List Bytes}, (∀ x ∈ es, x ∈ lineEnds) → (∀ x ∈ fs, x ∈ lineEnds) →
      es.flatten ++ (a ++ (e ++ x)) = fs.flatten ++ (b ++ (f ++ y)) → a ++ (e ++ x) = b ++ (f ++ y)
  | [], [], _, _, h => h
  | [], g :: fs, _, hfs, h => by
    rw [List.flatten_cons, List.append_assoc] at h
    obtain ⟨rfl, -⟩ := line_injective (b := []) haline (fun _ hc => absurd hc List.not_mem_nil) he
      (hfs g List.mem_cons_self) h
    exact absurd rfl ha
  | g :: es, [], hes, _, h => by
    rw [List.flatten_cons, List.append_assoc] at h
    obtain ⟨rfl, -⟩ := line_injective (a := []) (fun _ hc => absurd hc List.not_mem_nil) hbline
      (hes g List.mem_cons_self) hf h
    exact absurd rfl hb
  | g :: es, g' :: fs, hes, hfs, h => by
    rw [List.flatten_cons, List.flatten_cons, List.append_assoc, List.append_assoc] at h
    obtain ⟨-, -, h⟩ := line_injective (a := []) (b := []) (fun _ hc => absurd hc List.not_mem_nil)
      (fun _ hc => absurd hc List.not_mem_nil) (hes g List.mem_cons_self) (hfs g' List.mem_cons_self) h
    exact skipped_injective ha hb haline hbline he hf (fun x hx => hes x (List.mem_cons_of_mem _ hx))
      (fun x hx => hfs x (List.mem_cons_of_mem _ hx)) h

/-- Which header lines a head has is determined by its bytes, and so is where it ends. -/
theorem lines_injective {w w' : RawHead} {rest rest' : Bytes} (h : w.bytes ++ rest = w'.bytes ++ rest') :
    w.lines = w'.lines ∧ rest = rest' := by
  simp only [bytes, List.append_assoc] at h
  have hfirst := skipped_injective w.nonempty w'.nonempty w.isLine w'.isLine w.firstEnds w'.firstEnds w.skips w'.skips h
  obtain ⟨-, -, hlines⟩ := line_injective w.isLine w'.isLine w.firstEnds w'.firstEnds hfirst
  exact RawLine.lines_injective w.ends w'.ends hlines

end RawHead

/-- A head that is read has the fields that its header lines hold, and it ends with its empty line. -/
theorem Head.fields_of_request {w : RawHead} {h : RequestHead} {rest rest' : Bytes}
    (hs : request (w.bytes ++ rest) = .done h rest') : h.fields = w.lines.map RawLine.field ∧ rest' = rest := by
  obtain ⟨w', hbytes, hfields⟩ := request_eq_done hs
  obtain ⟨hlines, hrest⟩ := RawHead.lines_injective hbytes
  rw [hfields, hlines]
  exact ⟨rfl, hrest.symm⟩

end Hypertext
