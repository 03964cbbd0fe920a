/-
Heads of responses as they stand on the wire: the first line is a status line, and the rest is as in any head. Whatever
head is read stood there in this form and in no other, and its version and its code are those of its status line.
-/
import Hypertext.Proofs.Message.DeclaredFraming
import Hypertext.Proofs.Message.RawHead

namespace Hypertext

/-- A line that tells a version and a code of three digits, whatever phrase follows them. -/
def IsStatusLine (line : Bytes) (version : Version) (code : Nat) : Prop :=
  ∃ digits phrase : Bytes, line = Bytes.ofText version.text ++ 32 :: (digits ++ phrase) ∧ digits.length = 3 ∧
    digits.Denotes code

theorem Version.length_text (v : Version) : (Bytes.ofText v.text).length = 8 := by
  cases v <;> decide

/-- A line tells one version and one code at most. -/
theorem IsStatusLine.unique {line : Bytes} {version version' : Version} {code code' : Nat}
    (h : IsStatusLine line version code) (h' : IsStatusLine line version' code') :
    version = version' ∧ code = code' := by
  obtain ⟨digits, phrase, rfl, hlength, hcode⟩ := h
  obtain ⟨digits', phrase', hline, hlength', hcode'⟩ := h'
  obtain ⟨hversion, hrest⟩ := List.append_inj hline (version.length_text.trans version'.length_text.symm)
  rw [List.cons.injEq] at hrest
  obtain ⟨rfl, -⟩ := List.append_inj hrest.2 (hlength.trans hlength'.symm)
  refine ⟨?_, hcode.value.symm.trans hcode'.value⟩
  have htext := Bytes.ofText_injective hversion
  cases version <;> cases version' <;> first | rfl | exact absurd htext (by decide)

namespace Head

open Scanner

variable {s rest : Bytes}

theorem literal_eq_done {ε : Type} {e : ε} : ∀ {cs s : Bytes}, literal e cs s = .done () rest → s = cs ++ rest
  | [], s, h => by
    cases h
    rfl
  | c :: cs, s, h => by
    obtain ⟨b, mid, hfirst, hothers⟩ := bind_eq_done h
    obtain ⟨rfl, hb⟩ := byte_eq_done hfirst
    rw [literal_eq_done hothers, eq_of_beq hb]
    rfl

theorem version_eq_done {v : Version} (h : version s = .done v rest) : s = Bytes.ofText v.text ++ rest := by
  obtain ⟨_, mid, hstart, hminor⟩ := bind_eq_done h
  obtain ⟨minor, last, hbyte, hdone⟩ := bind_eq_done hminor
  obtain rfl := literal_eq_done hstart
  obtain ⟨rfl, hdigit⟩ := byte_eq_done hbyte
  cases hdone
  rcases Bool.or_eq_true_iff.1 hdigit with hdigit | hdigit <;> obtain rfl := eq_of_beq hdigit <;> rfl

theorem statusCode_eq_done {code : Nat} (h : statusCode s = .done code rest) :
    ∃ digits : Bytes, s = digits ++ rest ∧ digits.length = 3 ∧ digits.Denotes code := by
  obtain ⟨a, s₁, h₁, htens⟩ := bind_eq_done h
  obtain ⟨b, s₂, h₂, hones⟩ := bind_eq_done htens
  obtain ⟨c, s₃, h₃, hdone⟩ := bind_eq_done hones
  obtain ⟨rfl, ha⟩ := byte_eq_done h₁
  obtain ⟨rfl, hb⟩ := byte_eq_done h₂
  obtain ⟨rfl, hc⟩ := byte_eq_done h₃
  cases hdone
  refine ⟨[a, b, c], rfl, rfl, List.cons_ne_nil _ _, ?_, ?_⟩
  · intro d hd
    simp only [List.mem_cons, List.not_mem_nil, or_false] at hd
    rcases hd with rfl | rfl | rfl
    · exact ha
    · exact hb
    · exact hc
  · show 10 * (10 * (10 * 0 + _) + _) + _ = _
    omega

theorem reason_eq_done (h : reason s = .done () rest) : ∃ phrase ending : Bytes,
    (∀ b ∈ phrase, isLineByte b = false) ∧ ending ∈ lineEnds ∧ s = phrase ++ (ending ++ rest) := by
  obtain ⟨b, s₁, h₁, hrest⟩ := bind_eq_done h
  obtain rfl := peek_eq_done h₁
  split at hrest
  · obtain ⟨phrase, s₂, h₂, hend⟩ := bind_eq_done hrest
    obtain ⟨rfl, hphrase⟩ := span_eq_done h₂
    obtain ⟨ending, hending, rfl⟩ := newline_eq_done hend
    exact ⟨phrase, ending, fun c hc => by simpa using not_isLineByte_of_isValueByte c (hphrase c hc), hending, rfl⟩
  · obtain ⟨ending, hending, rfl⟩ := newline_eq_done hrest
    exact ⟨[], ending, fun c hc => absurd hc List.not_mem_nil, hending, rfl⟩

theorem not_isLineByte_of_isDigit : ∀ b : UInt8, Bytes.isDigit b = true → isLineByte b = false :=
  Bytes.forall_byte (by decide +kernel)

theorem not_isLineByte_of_version (v : Version) : ∀ b ∈ Bytes.ofText v.text, isLineByte b = false := by
  cases v <;> decide +kernel

/-- A head that is read stood there, with its status line and a line for each of its fields. -/
theorem response_eq_done {h : ResponseHead} (hs : response s = .done h rest) : ∃ w : RawHead, s = w.bytes ++ rest ∧
    IsStatusLine w.first h.version h.code ∧ h.fields = w.lines.map RawLine.field := by
  obtain ⟨_, s₁, h₁, hversion⟩ := bind_eq_done hs
  obtain ⟨v, s₂, h₂, hspace⟩ := bind_eq_done hversion
  obtain ⟨space, s₃, h₃, hcode⟩ := bind_eq_done hspace
  obtain ⟨code, s₄, h₄, hreason⟩ := bind_eq_done hcode
  obtain ⟨_, s₅, h₅, hfields⟩ := bind_eq_done hreason
  obtain ⟨fs, s₆, h₆, hdone⟩ := bind_eq_done hfields
  cases hdone
  obtain ⟨skipped, hskipped, rfl⟩ := skipEmptyLines_eq_done h₁
  obtain rfl := version_eq_done h₂
  obtain ⟨rfl, hblank⟩ := byte_eq_done h₃
  obtain rfl := eq_of_beq hblank
  obtain ⟨digits, rfl, hlength, hdenotes⟩ := statusCode_eq_done h₄
  obtain ⟨phrase, firstEnd, hphrase, hfirstEnd, rfl⟩ := reason_eq_done h₅
  obtain ⟨lines, ending, hending, rfl, rfl⟩ := fields_eq_done h₆
  refine ⟨⟨skipped, Bytes.ofText v.text ++ 32 :: (digits ++ phrase), firstEnd, lines, ending, hskipped, ?_, ?_,
    hfirstEnd, hending⟩, ?_, ⟨digits, phrase, rfl, hlength, hdenotes⟩, rfl⟩
  · simp
  · intro b hb
    rw [List.mem_append, List.mem_cons, List.mem_append] at hb
    rcases hb with hb | rfl | hb | hb
    · exact not_isLineByte_of_version v b hb
    · rfl
    · exact not_isLineByte_of_isDigit b (hdenotes.digits b hb)
    · exact hphrase b hb
  · simp [RawHead.bytes]

end Head

/-- Which first line a head has is determined by its bytes. -/
theorem RawHead.first_injective {w w' : RawHead} {rest rest' : Bytes} (h : w.bytes ++ rest = w'.bytes ++ rest') :
    w.first = w'.first := by
  simp only [bytes, List.append_assoc] at h
  have hfirst := skipped_injective w.nonempty w'.nonempty w.isLine w'.isLine w.firstEnds w'.firstEnds w.skips w'.skips h
  exact (Head.line_injective w.isLine w'.isLine w.firstEnds w'.firstEnds hfirst).1

/-- A head that is read tells what its status line and its header lines say, and it ends with its empty line. -/
theorem Head.told_of_response {w : RawHead} {h : ResponseHead} {rest rest' : Bytes} {version : Version} {code : Nat}
    (hstatus : IsStatusLine w.first version code) (hs : response (w.bytes ++ rest) = .done h rest') :
    h.version = version ∧ h.code = code ∧ h.fields = w.lines.map RawLine.field ∧ rest' = rest := by
  obtain ⟨w', hbytes, hline, hfields⟩ := response_eq_done hs
  obtain ⟨hlines, hrest⟩ := RawHead.lines_injective hbytes
  rw [← RawHead.first_injective hbytes] at hline
  obtain ⟨hversion, hcode⟩ := hline.unique hstatus
  rw [hfields, hlines]
  exact ⟨hversion, hcode, rfl, hrest.symm⟩

end Hypertext
