/-
What the header lines of a request declare about its body. Codings and lengths are read off the bytes of the lines;
what is dropped on the way from these bytes to the fields of a request is white space, and lines that are no text. A
head whose lines are text with no other white space than spaces and tabs therefore is framed as its bytes declare.
-/
import Hypertext.Proofs.Message.RawHead

namespace Hypertext

/-! ## Characters and their bytes -/

namespace Bytes

/-- An ASCII byte is the encoding of its own character and no part of another one. -/
theorem utf8EncodeChar_of_mem {c : Char} {b : UInt8} (hb : b ∈ String.utf8EncodeChar c) (hlow : b.toNat < 128) :
    String.utf8EncodeChar c = [b] ∧ c.toNat = b.toNat := by
  have hc : c.toNat < 128 := by
    by_contra h
    have hhigh := high_of_mem_utf8EncodeChar (Nat.le_of_not_lt h) hb
    omega
  have hchar := utf8EncodeChar_ascii hc
  rw [hchar, List.mem_singleton] at hb
  subst hb
  exact ⟨hchar, (Nat.mod_eq_of_lt (by omega)).symm⟩

theorem utf8EncodeChar_ne_nil (c : Char) : String.utf8EncodeChar c ≠ [] := by
  intro h
  have hlength := c.utf8Size_pos
  rw [← String.length_utf8EncodeChar, h] at hlength
  exact Nat.lt_irrefl _ hlength

theorem ofText_eq_flatMap (s : String) : ofText s = s.toList.flatMap String.utf8EncodeChar := by
  rw [← ofText_ofList, String.ofList_toList]

end Bytes

/-! ## Cutting and trimming -/

/-- Elements before the first separator go to the first piece. -/
theorem splitOn_append {α : Type} [BEq α] [LawfulBEq α] {a : α} : ∀ {before : List α}, a ∉ before → ∀ after : List α,
    (before ++ after).splitOn a = (after.splitOn a).modifyHead (before ++ ·)
  | [], _, after => by
    rw [List.nil_append]
    cases after.splitOn a <;> rfl
  | x :: before, h, after => by
    obtain ⟨hx, hbefore⟩ := not_or.1 (mt List.mem_cons.2 h)
    have hx : ¬ (x == a) = true := fun he => hx (eq_of_beq he).symm
    rw [List.cons_append, List.splitOn_eq_splitOnP, List.splitOnP_cons_eq_if_modifyHead, if_neg hx,
      ← List.splitOn_eq_splitOnP, splitOn_append hbefore]
    cases after.splitOn a <;> rfl

/-- Dropping characters at the front of a text drops their bytes, if the bytes tell which characters are dropped. -/
theorem dropWhile_flatMap {α β : Type} {p : α → Bool} {q : β → Bool} {f : α → List β} : ∀ {l : List α},
    (∀ a ∈ l, p a = true → ∀ b ∈ f a, q b = true) →
    (∀ a ∈ l, p a = false → f a ≠ [] ∧ ∀ b ∈ f a, q b = false) →
      (l.flatMap f).dropWhile q = (l.dropWhile p).flatMap f
  | [], _, _ => rfl
  | a :: l, hdrop, hkeep => by
    cases hp : p a with
    | true =>
      rw [List.dropWhile_cons_of_pos hp, List.flatMap_cons,
        List.dropWhile_append_of_pos (hdrop a List.mem_cons_self hp)]
      exact dropWhile_flatMap (fun x hx => hdrop x (List.mem_cons_of_mem _ hx))
        (fun x hx => hkeep x (List.mem_cons_of_mem _ hx))
    | false =>
      obtain ⟨hne, hbytes⟩ := hkeep a List.mem_cons_self hp
      obtain ⟨b, bs, hb⟩ := List.exists_cons_of_ne_nil hne
      have hq : ¬ q b = true := by
        rw [hbytes b (by rw [hb]; exact List.mem_cons_self)]
        exact Bool.false_ne_true
      rw [List.dropWhile_cons_of_neg (by rw [hp]; exact Bool.false_ne_true), List.flatMap_cons, hb, List.cons_append,
        List.dropWhile_cons_of_neg hq]

namespace Text

/-- A text has no white space but spaces and tabs. -/
def IsPlain (s : String) : Prop := ∀ c ∈ s.toList, isBlank c = true → c = ' ' ∨ c = '\t'

instance (s : String) : Decidable (IsPlain s) :=
  List.decidableBAll (fun c => isBlank c = true → c = ' ' ∨ c = '\t') s.toList

/-- The bytes of a piece of a list are a piece of the bytes. -/
theorem ofText_split (s : String) : (split ',' s).map Bytes.ofText = (Bytes.ofText s).splitOn 44 := by
  have hchars : ∀ cs : List Char, (cs.splitOn ',').map (·.flatMap String.utf8EncodeChar) =
      (cs.flatMap String.utf8EncodeChar).splitOn 44 := by
    intro cs
    induction cs with
    | nil => rfl
    | cons c cs ih =>
      rw [List.splitOn_eq_splitOnP, List.splitOnP_cons_eq_if_modifyHead, ← List.splitOn_eq_splitOnP, List.flatMap_cons]
      by_cases hc : c = ','
      · subst hc
        have hcomma : String.utf8EncodeChar ',' = [44] := Bytes.utf8EncodeChar_ascii (by decide)
        rw [if_pos (beq_self_eq_true _), List.map_cons, ih, hcomma, List.singleton_append,
          List.splitOn_eq_splitOnP, List.splitOn_eq_splitOnP, List.splitOnP_cons_eq_if_modifyHead,
          if_pos (beq_self_eq_true _)]
        rfl
      · have hbytes : (44 : UInt8) ∉ String.utf8EncodeChar c := by
          intro h
          obtain ⟨-, hn⟩ := Bytes.utf8EncodeChar_of_mem h (by decide)
          exact hc (Char.toNat_inj.1 hn)
        rw [if_neg (by simpa using hc), splitOn_append hbytes, ← ih]
        cases cs.splitOn ',' <;> rfl
  rw [split, List.map_map, Bytes.ofText_eq_flatMap, ← hchars]
  exact List.map_congr_left fun cs _ => Bytes.ofText_ofList cs

/-- The pieces of a plain text are plain. -/
theorem IsPlain.split {s : String} (h : IsPlain s) : ∀ t ∈ split ',' s, IsPlain t := by
  have hpieces : ∀ cs : List Char, ∀ piece ∈ cs.splitOn ',', ∀ c ∈ piece, c ∈ cs := by
    intro cs
    induction cs with
    | nil =>
      intro piece hpiece c hc
      rw [List.mem_singleton.1 hpiece] at hc
      cases hc
    | cons d cs ih =>
      intro piece hpiece c hc
      rw [List.splitOn_eq_splitOnP, List.splitOnP_cons_eq_if_modifyHead, ← List.splitOn_eq_splitOnP] at hpiece
      split at hpiece
      · rcases List.mem_cons.1 hpiece with rfl | hpiece
        · cases hc
        · exact List.mem_cons_of_mem _ (ih piece hpiece c hc)
      · cases hs : cs.splitOn ',' with
        | nil =>
          rw [hs] at hpiece
          cases hpiece
        | cons first others =>
          rw [hs] at hpiece ih
          rcases List.mem_cons.1 hpiece with rfl | hpiece
          · rcases List.mem_cons.1 hc with rfl | hc
            · exact List.mem_cons_self
            · exact List.mem_cons_of_mem _ (ih first List.mem_cons_self c hc)
          · exact List.mem_cons_of_mem _ (ih piece (List.mem_cons_of_mem _ hpiece) c hc)
  intro t ht c hc
  obtain ⟨piece, hpiece, rfl⟩ := List.mem_map.1 ht
  rw [String.toList_ofList] at hc
  exact h c (hpieces _ piece hpiece c hc)

/-- A space or a tab is one byte, and no other character has these bytes. -/
theorem gap_bytes {c : Char} (hplain : isBlank c = true → c = ' ' ∨ c = '\t') :
    (isBlank c = true → ∀ b ∈ String.utf8EncodeChar c, Head.isGap b = true) ∧
    (isBlank c = false → ∀ b ∈ String.utf8EncodeChar c, Head.isGap b = false) := by
  constructor
  · intro hc b hb
    rcases hplain hc with rfl | rfl
    · rw [Bytes.utf8EncodeChar_ascii (by decide), List.mem_singleton] at hb
      rw [hb]
      rfl
    · rw [Bytes.utf8EncodeChar_ascii (by decide), List.mem_singleton] at hb
      rw [hb]
      rfl
  · intro hc b hb
    rw [Bool.eq_false_iff]
    intro hgap
    have hcode : b.toNat = 32 ∨ b.toNat = 9 := by
      rw [Head.isGap, Bool.or_eq_true, beq_iff_eq, beq_iff_eq] at hgap
      rcases hgap with rfl | rfl
      · exact .inl rfl
      · exact .inr rfl
    obtain ⟨-, hn⟩ := Bytes.utf8EncodeChar_of_mem hb (by omega)
    have hblank : isBlank c = true := by
      rw [isBlank, hn]
      rcases hcode with h | h
      · rw [h]
        rfl
      · rw [h]
        rfl
    rw [hblank] at hc
    cases hc

/-- Trimming a plain text strips its bytes. -/
theorem IsPlain.ofText_trim {s : String} (h : IsPlain s) : Bytes.ofText (trim s) = Head.strip (Bytes.ofText s) := by
  have hgap : ∀ c ∈ s.toList.dropWhile isBlank, c ∈ s.toList :=
    fun c hc => (List.dropWhile_suffix isBlank).subset hc
  have hfront : (s.toList.flatMap String.utf8EncodeChar).dropWhile Head.isGap =
      (s.toList.dropWhile isBlank).flatMap String.utf8EncodeChar :=
    dropWhile_flatMap (fun c hc => (gap_bytes (h c hc)).1)
      fun c hc hb => ⟨Bytes.utf8EncodeChar_ne_nil c, (gap_bytes (h c hc)).2 hb⟩
  have hback : ((s.toList.dropWhile isBlank).reverse.flatMap (List.reverse ∘ String.utf8EncodeChar)).dropWhile Head.isGap =
      ((s.toList.dropWhile isBlank).reverse.dropWhile isBlank).flatMap (List.reverse ∘ String.utf8EncodeChar) := by
    refine dropWhile_flatMap ?_ ?_
    · intro c hc hb b hmem
      exact (gap_bytes (h c (hgap c (List.mem_reverse.1 hc)))).1 hb b (List.mem_reverse.1 hmem)
    · intro c hc hb
      refine ⟨fun hnil => Bytes.utf8EncodeChar_ne_nil c (List.reverse_eq_nil_iff.1 hnil), ?_⟩
      intro b hmem
      exact (gap_bytes (h c (hgap c (List.mem_reverse.1 hc)))).2 hb b (List.mem_reverse.1 hmem)
  rw [trim, trimBy, Bytes.ofText_ofList, Head.strip, Bytes.ofText_eq_flatMap, hfront, List.reverse_flatMap, hback,
    List.reverse_flatMap]
  simp only [Function.comp_def, List.reverse_reverse]

end Text

/-- What has been stripped has no space or tab at its ends. -/
theorem Head.strip_strip (b : Bytes) : strip (strip b) = strip b := by
  have hfirst : ∀ x ∈ (strip b).head?, isGap x = false := by
    intro x hx
    obtain ⟨after, hafter⟩ : strip b <+: b.dropWhile isGap := by
      have h := List.dropWhile_suffix (l := (b.dropWhile isGap).reverse) isGap
      rw [← List.reverse_prefix, List.reverse_reverse] at h
      exact h
    have hnot := List.head?_dropWhile_not isGap b
    rw [← hafter, List.head?_append, Option.mem_def.1 hx] at hnot
    exact hnot
  have hlast : ∀ x ∈ (strip b).getLast?, isGap x = false := by
    intro x hx
    rw [strip, List.getLast?_reverse, Option.mem_def] at hx
    have hnot := List.head?_dropWhile_not isGap (b.dropWhile isGap).reverse
    rw [hx] at hnot
    exact hnot
  have h : strip (strip b) = (((strip b).dropWhile isGap).reverse.dropWhile isGap).reverse := rfl
  rw [h, dropWhile_of_head? hfirst, dropWhile_reverse_of_getLast? hlast]

/-! ## Lengths -/

/-- The number that decimal digits write. -/
def Bytes.decimal (b : Bytes) : Nat := b.foldl (fun n d => 10 * n + (d.toNat - 48)) 0

/-- Bytes are decimal digits that write a number. -/
structure Bytes.Denotes (b : Bytes) (n : Nat) : Prop where
  nonempty : b ≠ []
  digits : ∀ d ∈ b, Bytes.isDigit d = true
  value : b.decimal = n

namespace Text

theorem isDigit_of_bytes {s : String} (h : ∀ b ∈ Bytes.ofText s, Bytes.isDigit b = true) :
    ∀ c ∈ s.toList, isDigit c = true := by
  intro c hc
  obtain ⟨b, bs, hbytes⟩ := List.exists_cons_of_ne_nil (Bytes.utf8EncodeChar_ne_nil c)
  have hb : b ∈ String.utf8EncodeChar c := by
    rw [hbytes]
    exact List.mem_cons_self
  have hdigit : Bytes.isDigit b = true := by
    refine h b ?_
    rw [Bytes.ofText_eq_flatMap]
    exact List.mem_flatMap.2 ⟨c, hc, hb⟩
  rw [Bytes.isDigit, Bool.and_eq_true, decide_eq_true_eq, decide_eq_true_eq, UInt8.le_iff_toNat_le,
    UInt8.le_iff_toNat_le] at hdigit
  obtain ⟨hlow, hhigh⟩ : 48 ≤ b.toNat ∧ b.toNat ≤ 57 := hdigit
  obtain ⟨-, hn⟩ := Bytes.utf8EncodeChar_of_mem hb (by omega)
  exact isDigit_iff.2 (by omega)

theorem ofText_digits {s : String} (h : ∀ c ∈ s.toList, isDigit c = true) :
    Bytes.ofText s = s.toList.map Bytes.ofChar := by
  rw [← Bytes.ofText_ofList_ascii, String.ofList_toList]
  intro c hc
  have hdigit := isDigit_iff.1 (h c hc)
  omega

theorem decimal_ofText {s : String} (h : ∀ c ∈ s.toList, isDigit c = true) :
    (Bytes.ofText s).decimal = Nat.ofDigitChars 10 s.toList 0 := by
  have hfold : ∀ (cs : List Char) (n : Nat), (∀ c ∈ cs, isDigit c = true) →
      (cs.map Bytes.ofChar).foldl (fun n d => 10 * n + (d.toNat - 48)) n = Nat.ofDigitChars 10 cs n := by
    intro cs
    induction cs with
    | nil =>
      intro n _
      rfl
    | cons c cs ih =>
      intro n hcs
      have hdigit := isDigit_iff.1 (hcs c List.mem_cons_self)
      have hc : (Bytes.ofChar c).toNat = c.toNat := Nat.mod_eq_of_lt (by omega)
      rw [List.map_cons, List.foldl_cons, Nat.ofDigitChars_cons, hc]
      exact ih _ fun d hd => hcs d (List.mem_cons_of_mem _ hd)
  rw [Bytes.decimal, ofText_digits h]
  exact hfold _ 0 h

theorem readDigits_eq_error {max : Nat} : ∀ {cs : List Char} {n : Nat}, n ≤ max → (∀ c ∈ cs, isDigit c = true) →
    max < Nat.ofDigitChars 10 cs n → readDigits max n cs = .error .tooLarge
  | [], n, hn, _, hmax => by
    rw [Nat.ofDigitChars_nil] at hmax
    omega
  | c :: cs, n, hn, hcs, hmax => by
    rw [Nat.ofDigitChars_cons] at hmax
    rw [readDigits, if_pos (hcs c List.mem_cons_self)]
    show (if _ ≤ max then _ else _) = _
    split
    · next h => exact readDigits_eq_error h (fun d hd => hcs d (List.mem_cons_of_mem _ hd)) hmax
    · rfl

/-- A text of digits is read as their number, unless that is too large. -/
theorem readNat_eq_ok_iff {max n : Nat} {s : String} (hs : ∀ c ∈ s.toList, isDigit c = true) :
    readNat max s = .ok n ↔ s.toList ≠ [] ∧ Nat.ofDigitChars 10 s.toList 0 = n ∧ n ≤ max := by
  cases hchars : s.toList with
  | nil => simp [readNat, hchars]
  | cons c cs =>
    rw [hchars] at hs
    have hread : readNat max s = readDigits max 0 (c :: cs) := by
      unfold readNat
      split
      · next h => exact absurd (h.symm.trans hchars) (List.cons_ne_nil _ _).symm
      · next d ds h =>
        -- a plus sign is no digit
        have hplus : c = '+' := (List.cons.inj (hchars.symm.trans h)).1
        have hsign := hs c List.mem_cons_self
        rw [hplus] at hsign
        exact absurd hsign (by decide)
      · rw [hchars]
    rw [hread]
    by_cases hmax : Nat.ofDigitChars 10 (c :: cs) 0 ≤ max
    · rw [readDigits_eq_ok hs hmax]
      constructor
      · intro h
        cases h
        exact ⟨List.cons_ne_nil _ _, rfl, hmax⟩
      · rintro ⟨-, rfl, -⟩
        rfl
    · rw [readDigits_eq_error (Nat.zero_le _) hs (Nat.lt_of_not_le hmax)]
      constructor
      · intro h
        cases h
      · rintro ⟨-, rfl, h⟩
        exact absurd h hmax

end Text

/-- A length is read off a plain text if its bytes are digits that write it, and it is not too large. -/
theorem Headers.length?_eq_some_iff {s : String} {n : Nat} (h : Text.IsPlain s) :
    length? s = some n ↔ (Head.strip (Bytes.ofText s)).Denotes n ∧ n ≤ Text.maxWord := by
  rw [← h.ofText_trim]
  have hread : length? s =
      if (Text.trim s).toList.all Text.isDigit then (Text.readNat Text.maxWord (Text.trim s)).toOption else none := rfl
  rw [hread]
  generalize Text.trim s = t
  have hbytes : Bytes.ofText t ≠ [] ↔ t.toList ≠ [] := by
    rw [Bytes.ofText_eq_flatMap, Ne, Ne, List.flatMap_eq_nil_iff]
    constructor
    · intro hne hnil
      rw [hnil] at hne
      exact hne fun c hc => absurd hc List.not_mem_nil
    · intro hne hnil
      obtain ⟨c, cs, hcs⟩ := List.exists_cons_of_ne_nil hne
      exact Bytes.utf8EncodeChar_ne_nil c (hnil c (by rw [hcs]; exact List.mem_cons_self))
  split
  · next hall =>
    have hdigits := List.all_eq_true.1 hall
    have hread : ∀ e : Except Text.IntegerError Nat, e.toOption = some n ↔ e = .ok n := by
      intro e
      cases e <;> simp [Except.toOption]
    rw [hread, Text.readNat_eq_ok_iff hdigits, ← Text.decimal_ofText hdigits, ← hbytes]
    constructor
    · rintro ⟨hne, rfl, hle⟩
      refine ⟨⟨hne, ?_, rfl⟩, hle⟩
      rw [Text.ofText_digits hdigits]
      intro b hb
      obtain ⟨c, hc, rfl⟩ := List.mem_map.1 hb
      exact Text.isDigit_ofChar (hdigits c hc)
    · rintro ⟨hd, hle⟩
      exact ⟨hd.nonempty, hd.value, hle⟩
  · next hall =>
    constructor
    · intro hnone
      cases hnone
    · rintro ⟨hd, -⟩
      exact absurd (List.all_eq_true.2 (Text.isDigit_of_bytes hd.digits)) hall

/-! ## What lines declare -/

namespace RawHead

/-- The values of the lines of a name, without the spaces and tabs around them. -/
def values (name : String) (w : RawHead) : List Bytes :=
  (w.lines.filter fun l => Text.sameName (Head.asciiText l.name) name).map fun l => Head.strip l.value

def transferEncodings (w : RawHead) : List Bytes := w.values "transfer-encoding"

def contentLengths (w : RawHead) : List Bytes := w.values "content-length"

end RawHead

/-- The codings in lists of codings: what stands between commas, but for spaces and tabs, and is not empty. -/
def codings (values : List Bytes) : List Bytes :=
  ((values.flatMap fun v => v.splitOn 44).map Head.strip).filter fun c => !c.isEmpty

/-- The last coding is the chunked one, in any letter case. -/
def EndsChunked (values : List Bytes) : Prop :=
  ∃ s, (codings values).getLast? = some (Bytes.ofText s) ∧ Text.sameName s "chunked" = true

/-- Bytes are the text of a value with no white space but spaces and tabs. -/
def IsPlainValue (v : Bytes) : Prop := ∃ s, Bytes.ofText s = v ∧ Text.IsPlain s

/-- The fields of a request are the values of its header lines that are text. -/
theorem Head.getAll_headers (name : String) (lines : List FieldLine) :
    (headers lines).getAll name =
      ((lines.filter fun f => Text.sameName f.name name).map (·.value)).filterMap Bytes.text? := by
  induction lines with
  | nil => rfl
  | cons f lines ih =>
    have hcons : headers (f :: lines) = ⟨(headers [f]).entries ++ (headers lines).entries⟩ := by
      simp only [headers, List.filterMap_cons, List.filterMap_nil]
      cases Bytes.text? f.value <;> rfl
    rw [hcons, Headers.getAll_append, ih, List.filter_cons]
    cases hv : Bytes.text? f.value with
    | none =>
      have hnone : (headers [f]).getAll name = [] := by simp [headers, hv, Headers.getAll]
      rw [hnone, List.nil_append]
      split
      · rw [List.map_cons, List.filterMap_cons_none hv]
      · rfl
    | some v =>
      have hone : (headers [f]).getAll name = if Text.sameName f.name name then [v] else [] := by
        rw [← Headers.getAll_singleton]
        simp [headers, hv]
      rw [hone]
      split
      · rw [List.map_cons, List.filterMap_cons_some hv]
        rfl
      · rfl

theorem RawHead.getAll_fields (name : String) (w : RawHead) :
    (Head.headers (w.lines.map RawLine.field)).getAll name = (w.values name).filterMap Bytes.text? := by
  rw [Head.getAll_headers, List.filter_map, List.map_map]
  rfl

/-- Plain values are texts that nothing is lost of. -/
theorem exists_texts : ∀ {values : List Bytes}, (∀ v ∈ values, IsPlainValue v) →
    ∃ texts : List String, values = texts.map Bytes.ofText ∧ values.filterMap Bytes.text? = texts ∧
      ∀ s ∈ texts, Text.IsPlain s
  | [], _ => ⟨[], rfl, rfl, fun _ h => absurd h List.not_mem_nil⟩
  | v :: values, h => by
    obtain ⟨s, rfl, hs⟩ := h v List.mem_cons_self
    obtain ⟨texts, rfl, htexts, hplain⟩ := exists_texts fun x hx => h x (List.mem_cons_of_mem _ hx)
    refine ⟨s :: texts, rfl, ?_, ?_⟩
    · rw [List.filterMap_cons_some (Bytes.text?_ofText s), htexts]
    · intro t ht
      rcases List.mem_cons.1 ht with rfl | ht
      · exact hs
      · exact hplain t ht

theorem Bytes.ofText_isEmpty (s : String) : (Bytes.ofText s).isEmpty = (s == "") := by
  rw [Bool.eq_iff_iff, List.isEmpty_iff, beq_iff_eq]
  constructor
  · intro h
    exact Bytes.ofText_injective h
  · rintro rfl
    rfl

/-- The elements of plain texts are the codings in their bytes. -/
theorem codings_ofText {texts : List String} (h : ∀ s ∈ texts, Text.IsPlain s) :
    codings (texts.map Bytes.ofText) =
      ((texts.flatMap fun v => (Text.split ',' v).map Text.trim).filter (· != "")).map Bytes.ofText := by
  have hpieces : ∀ s, Text.IsPlain s →
      ((Text.split ',' s).map Text.trim).map Bytes.ofText = ((Bytes.ofText s).splitOn 44).map Head.strip := by
    intro s hs
    rw [← Text.ofText_split, List.map_map, List.map_map]
    exact List.map_congr_left fun t ht => (hs.split t ht).ofText_trim
  have hall : (texts.flatMap fun v => (Text.split ',' v).map Text.trim).map Bytes.ofText =
      ((texts.map Bytes.ofText).flatMap fun v => v.splitOn 44).map Head.strip := by
    rw [List.map_flatMap, List.flatMap_map, List.map_flatMap, List.flatMap_def, List.flatMap_def]
    exact congrArg List.flatten (List.map_congr_left fun s hs => hpieces s (h s hs))
  rw [codings, ← hall, List.filter_map]
  refine congrArg _ (List.filter_congr fun s _ => ?_)
  show (!(Bytes.ofText s).isEmpty) = _
  rw [Bytes.ofText_isEmpty]
  rfl

/-! ## How a request is framed -/

/-- Lengths frame a body if all of them write the same number, and are refused otherwise. -/
theorem Framing.ofLengths_eq {texts : List String} (hne : texts ≠ []) :
    (∀ n, (∀ s ∈ texts, Headers.length? s = some n) → ofLengths texts = .ok (some (ofLength n))) ∧
    ((¬ ∃ n, ∀ s ∈ texts, Headers.length? s = some n) → ofLengths texts = .error .invalidLength) := by
  obtain ⟨first, others, rfl⟩ := List.exists_cons_of_ne_nil hne
  constructor
  · intro n h
    have hall : (others.all fun o => Headers.length? o == some n) = true := by
      rw [List.all_eq_true]
      intro o ho
      rw [h o (List.mem_cons_of_mem _ ho), beq_self_eq_true]
    simp only [ofLengths, h first List.mem_cons_self, hall, if_true]
  · intro h
    rw [ofLengths]
    split
    · rfl
    · next n hn =>
      split
      · next hall =>
        refine absurd ⟨n, ?_⟩ h
        intro s hs
        rcases List.mem_cons.1 hs with rfl | hs
        · exact hn
        · exact eq_of_beq (List.all_eq_true.1 hall s hs)
      · rfl

namespace Request

variable {w : RawHead} {r : Request}

/-- The fields of a request are those of the lines of its head. -/
theorem getAll_of_parse {rest rest' : Bytes} (h : parse (w.bytes ++ rest) = .ok (r, rest')) (name : String) :
    rest' = rest ∧ r.headers.getAll name = (w.values name).filterMap Bytes.text? := by
  unfold parse at h
  split at h
  · next head s hs =>
    cases h
    obtain ⟨hfields, rfl⟩ := Head.fields_of_request hs
    refine ⟨rfl, ?_⟩
    rw [← RawHead.getAll_fields, ← hfields]
    rfl
  · cases h
  · cases h

theorem exists_rawHead_of_parse {buffer rest : Bytes} (h : parse buffer = .ok (r, rest)) :
    ∃ w : RawHead, buffer = w.bytes ++ rest := by
  unfold parse at h
  split at h
  · next head s hs =>
    cases h
    obtain ⟨w, hw, -⟩ := Head.request_eq_done hs
    exact ⟨w, hw⟩
  · cases h
  · cases h

/-- A transfer coding that is declared in plain values frames the body, or nothing does. -/
theorem framing_of_codings {vs : List Bytes} (hne : vs ≠ []) (hplain : ∀ v ∈ vs, IsPlainValue v)
    (hvalues : r.headers.getAll "transfer-encoding" = vs.filterMap Bytes.text?) :
    (EndsChunked vs → r.framing = .ok .chunked) ∧ (¬ EndsChunked vs → ∃ e, r.framing = .error e) := by
  obtain ⟨texts, rfl, htexts, htextsPlain⟩ := exists_texts hplain
  rw [htexts] at hvalues
  have hcontains : r.headers.contains "transfer-encoding" = true := by
    rw [← Bool.not_eq_false, Headers.contains_eq_false_iff, hvalues]
    rintro rfl
    exact hne rfl
  have helements :
      r.headers.elements "transfer-encoding" = texts.flatMap fun v => (Text.split ',' v).map Text.trim := by
    rw [Headers.elements, hvalues]
  have hframing : r.framing = (Framing.announced r.headers).map (·.getD .empty) := rfl
  rw [EndsChunked, codings_ofText htextsPlain, hframing, Framing.announced, if_pos hcontains, helements]
  generalize (texts.flatMap fun v => (Text.split ',' v).map Text.trim).filter (· != "") = named
  rw [List.getLast?_map, List.getLastD_eq_getLast?]
  cases hlast : named.getLast? with
  | none =>
    constructor
    · rintro ⟨s, hs, -⟩
      cases hs
    · intro _
      exact ⟨_, rfl⟩
  | some last =>
    have hiff : (∃ s, (some last).map Bytes.ofText = some (Bytes.ofText s) ∧ Text.sameName s "chunked" = true) ↔
        Text.sameName last "chunked" = true := by
      constructor
      · rintro ⟨s, hs, hchunked⟩
        rw [Bytes.ofText_injective (Option.some.inj hs)]
        exact hchunked
      · intro hchunked
        exact ⟨last, rfl, hchunked⟩
    rw [hiff]
    constructor
    · intro hchunked
      show Except.map _ (if Text.sameName last "chunked" then _ else _) = _
      rw [if_pos hchunked]
      rfl
    · intro hchunked
      show ∃ e, Except.map _ (if Text.sameName last "chunked" then _ else _) = _
      rw [if_neg hchunked]
      exact ⟨_, rfl⟩

/-- Lengths that are declared in plain values frame the body if they agree, or nothing does. -/
theorem framing_of_lengths {vs : List Bytes} (hne : vs ≠ []) (hplain : ∀ v ∈ vs, IsPlainValue v)
    (hcodings : r.headers.getAll "transfer-encoding" = [])
    (hvalues : r.headers.getAll "content-length" = vs.filterMap Bytes.text?) (hstrip : ∀ v ∈ vs, Head.strip v = v) :
    (∀ n ≤ Text.maxWord, (∀ v ∈ vs, v.Denotes n) → r.framing = .ok (.ofLength n)) ∧
    ((¬ ∃ n ≤ Text.maxWord, ∀ v ∈ vs, v.Denotes n) → r.framing = .error .invalidLength) := by
  obtain ⟨texts, rfl, htexts, htextsPlain⟩ := exists_texts hplain
  rw [htexts] at hvalues
  have hcontains : ¬ r.headers.contains "transfer-encoding" = true := by
    rw [Bool.not_eq_true, Headers.contains_eq_false_iff, hcodings]
  have hlength : ∀ s ∈ texts, ∀ n, Headers.length? s = some n ↔ (Bytes.ofText s).Denotes n ∧ n ≤ Text.maxWord := by
    intro s hs n
    rw [Headers.length?_eq_some_iff (htextsPlain s hs), hstrip _ (List.mem_map_of_mem hs)]
  have hne' : texts ≠ [] := by
    rintro rfl
    exact hne rfl
  obtain ⟨hok, herror⟩ := Framing.ofLengths_eq hne'
  have hframing : r.framing = (Framing.announced r.headers).map (·.getD .empty) := rfl
  rw [hframing, Framing.announced, if_neg hcontains, hvalues]
  constructor
  · intro n hn h
    rw [hok n fun s hs => (hlength s hs n).2 ⟨h _ (List.mem_map_of_mem hs), hn⟩]
    rfl
  · intro h
    rw [herror]
    · rfl
    · rintro ⟨n, hall⟩
      obtain ⟨s, others, rfl⟩ := List.exists_cons_of_ne_nil hne'
      refine h ⟨n, ((hlength s List.mem_cons_self n).1 (hall s List.mem_cons_self)).2, ?_⟩
      intro v hv
      obtain ⟨t, ht, rfl⟩ := List.mem_map.1 hv
      exact ((hlength t ht n).1 (hall t ht)).1

/-- A request that is read is framed as the lines of its head declare, if these are plain: by the chunked coding if
that is the last coding named, by the length that all lengths write, and as empty only if neither is declared. -/
theorem framing_of_declared {buffer rest : Bytes} (h : parse buffer = .ok (r, rest)) :
    (∃ w : RawHead, buffer = w.bytes ++ rest) ∧
    ∀ (w : RawHead) (rest' : Bytes), buffer = w.bytes ++ rest' →
      rest' = rest ∧
      (w.transferEncodings ≠ [] → (∀ v ∈ w.transferEncodings, IsPlainValue v) →
        (EndsChunked w.transferEncodings → r.framing = .ok .chunked) ∧
        (¬ EndsChunked w.transferEncodings → ∃ e, r.framing = .error e)) ∧
      (w.transferEncodings = [] → w.contentLengths ≠ [] → (∀ v ∈ w.contentLengths, IsPlainValue v) →
        (∀ n ≤ Text.maxWord, (∀ v ∈ w.contentLengths, v.Denotes n) → r.framing = .ok (.ofLength n)) ∧
        ((¬ ∃ n ≤ Text.maxWord, ∀ v ∈ w.contentLengths, v.Denotes n) → r.framing = .error .invalidLength)) ∧
      (w.transferEncodings = [] → w.contentLengths = [] → r.framing = .ok .empty) := by
  refine ⟨exists_rawHead_of_parse h, ?_⟩
  rintro w rest' rfl
  obtain ⟨hrest, hcodings⟩ := getAll_of_parse h "transfer-encoding"
  obtain ⟨-, hlengths⟩ := getAll_of_parse h "content-length"
  refine ⟨hrest.symm, ?coded, ?sized, ?plain⟩
  case coded =>
    intro hne hplain
    exact framing_of_codings hne hplain hcodings
  case sized =>
    intro hnone hne hplain
    rw [RawHead.transferEncodings] at hnone
    rw [hnone] at hcodings
    refine framing_of_lengths hne hplain hcodings hlengths ?_
    intro v hv
    obtain ⟨l, -, rfl⟩ := List.mem_map.1 hv
    exact Head.strip_strip l.value
  case plain =>
    intro hnoCoding hnoLength
    rw [RawHead.transferEncodings] at hnoCoding
    rw [RawHead.contentLengths] at hnoLength
    rw [hnoCoding] at hcodings
    rw [hnoLength] at hlengths
    have hcontains : ¬ r.headers.contains "transfer-encoding" = true := by
      rw [Bool.not_eq_true, Headers.contains_eq_false_iff, hcodings]
      rfl
    have hframing : r.framing = (Framing.announced r.headers).map (·.getD .empty) := rfl
    rw [hframing, Framing.announced, if_neg hcontains, hlengths]
    rfl

/-- A length in a head that declares a coding as well has no say. -/
theorem framing_of_gzip_chunked :
    ∃ (w : RawHead) (r : Request),
      w.bytes = Bytes.ofText "POST / HTTP/1.1\r\nTransfer-Encoding: gzip, Chunked \r\nContent-Length: 5\r\n\r\n" ∧
      parse w.bytes = .ok (r, []) ∧ w.contentLengths = [[53]] ∧ r.framing = .ok .chunked := by
  let w : RawHead :=
    { skipped := [], first := Bytes.ofText "POST / HTTP/1.1", firstEnd := Bytes.crlf
      lines :=
        [⟨Bytes.ofText "Transfer-Encoding", Bytes.ofText " gzip, Chunked ", Bytes.crlf, by decide, by decide +kernel,
          by decide +kernel, by decide⟩,
         ⟨Bytes.ofText "Content-Length", Bytes.ofText " 5", Bytes.crlf, by decide, by decide +kernel, by decide +kernel,
          by decide⟩]
      ending := Bytes.crlf
      skips := by decide, nonempty := by decide, isLine := by decide +kernel
      firstEnds := by decide, ends := by decide }
  have hcodings : w.transferEncodings = [Bytes.ofText "gzip, Chunked"] := by decide
  let r : Request :=
    { new .post "/" with headers := ⟨[("Transfer-Encoding", "gzip, Chunked"), ("Content-Length", "5")]⟩ }
  have hr : parse w.bytes = .ok (r, []) := by decide
  obtain ⟨-, hdeclared⟩ := framing_of_declared hr
  obtain ⟨-, hcoded, -⟩ := hdeclared w [] (List.append_nil _).symm
  have hplain : ∀ v ∈ w.transferEncodings, IsPlainValue v := by
    intro v hv
    rw [hcodings, List.mem_singleton] at hv
    exact ⟨"gzip, Chunked", hv.symm, by decide⟩
  have hchunked : EndsChunked w.transferEncodings := ⟨"Chunked", by decide, by decide⟩
  exact ⟨w, r, by decide, hr, by decide, (hcoded (by decide) hplain).1 hchunked⟩

/-- A length that is no text is dropped with its line, and the body with it; white space that is neither a space nor a
tab is dropped from a length. -/
theorem framing_of_unreadable_length :
    (∃ (w : RawHead) (r : Request), w.transferEncodings = [] ∧ w.contentLengths = [[0xff]] ∧
      parse w.bytes = .ok (r, []) ∧ r.framing = .ok .empty) ∧
    ∃ (w : RawHead) (r : Request), w.transferEncodings = [] ∧ w.contentLengths = [[0xc2, 0xa0, 53]] ∧
      parse w.bytes = .ok (r, []) ∧ r.framing = .ok (.length 5) := by
  let w (value : Bytes) (h : ∀ b ∈ value, Head.isValueByte b = true) : RawHead :=
    { skipped := [], first := Bytes.ofText "POST / HTTP/1.1", firstEnd := Bytes.crlf
      lines := [⟨Bytes.ofText "Content-Length", value, Bytes.crlf, by decide, by decide +kernel, h, by decide⟩]
      ending := Bytes.crlf
      skips := by decide, nonempty := by decide, isLine := by decide +kernel
      firstEnds := by decide, ends := by decide }
  constructor
  · exact ⟨w [0xff] (by decide +kernel), new .post "/", by decide, by decide, by decide, by decide⟩
  · let r : Request := { new .post "/" with headers := ⟨[("Content-Length", "\u00a05")]⟩ }
    exact ⟨w [0xc2, 0xa0, 53] (by decide +kernel), r, by decide, by decide, by decide, by decide⟩

end Request

end Hypertext
