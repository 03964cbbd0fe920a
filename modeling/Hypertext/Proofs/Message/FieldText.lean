/-
Header lines as they are written and read. Tokens and field texts are the names and values that come through: a line
that is written is read as the field it was written for, whatever follows it.
-/
import Hypertext.Proofs.Message.Incremental
import Mathlib.Tactic.SplitIfs

namespace Hypertext

/-! ## Bytes of texts -/

namespace Bytes

theorem ofText_injective {s t : String} (h : ofText s = ofText t) : s = t := by
  have ht := text?_ofText t
  rw [← h, text?_ofText] at ht
  exact Option.some.inj ht

theorem ofText_ofList (cs : List Char) : ofText (String.ofList cs) = cs.flatMap String.utf8EncodeChar := by
  simp [ofText, String.toUTF8, List.utf8Encode]

theorem utf8EncodeChar_ascii {c : Char} (h : c.toNat < 128) : String.utf8EncodeChar c = [ofChar c] := by
  have hsize : c.utf8Size = 1 := by
    rw [Char.utf8Size_eq_one_iff, UInt32.le_iff_toNat_le]
    show c.toNat ≤ 127
    omega
  rw [String.utf8EncodeChar_eq_singleton hsize]
  rfl

/-- Outside of ASCII every byte of the encoding is a high one. -/
theorem high_of_mem_utf8EncodeChar {c : Char} (hc : 128 ≤ c.toNat) {b : UInt8} (hb : b ∈ String.utf8EncodeChar c) :
    128 ≤ b.toNat := by
  have hn : ∀ n : Nat, 128 ≤ n → n < 256 → 128 ≤ (UInt8.ofNat n).toNat := by
    intro n hlow hhigh
    rw [UInt8.toNat_ofNat_of_lt' hhigh]
    exact hlow
  rw [String.utf8EncodeChar, if_neg (by show ¬ c.toNat ≤ 127; omega)] at hb
  split_ifs at hb
  all_goals simp only [List.mem_cons, List.not_mem_nil, or_false] at hb
  · rcases hb with rfl | rfl <;> exact hn _ (by omega) (by omega)
  · rcases hb with rfl | rfl | rfl <;> exact hn _ (by omega) (by omega)
  · rcases hb with rfl | rfl | rfl | rfl <;> exact hn _ (by omega) (by omega)

theorem ofText_ofList_ascii {cs : List Char} (h : ∀ c ∈ cs, c.toNat < 128) :
    ofText (String.ofList cs) = cs.map ofChar := by
  rw [ofText_ofList]
  induction cs with
  | nil => rfl
  | cons c cs ih =>
    rw [List.flatMap_cons, utf8EncodeChar_ascii (h c List.mem_cons_self), ih fun d hd => h d (List.mem_cons_of_mem _ hd)]
    rfl

theorem toNat_toChar {b : UInt8} : (toChar b).toNat = b.toNat := by
  have hlt := b.toNat_lt
  have hvalid : b.toNat.isValidChar := .inl (by omega)
  rw [toChar, Char.ofNat, dif_pos hvalid]
  rfl

theorem ofChar_toChar (b : UInt8) : ofChar (toChar b) = b := by
  rw [ofChar, toNat_toChar]
  simp

/-- Text of ASCII bytes has these bytes. -/
theorem ofText_asciiText {b : Bytes} (h : ∀ x ∈ b, x.toNat < 128) : ofText (Head.asciiText b) = b := by
  rw [Head.asciiText, ofText_ofList_ascii, List.map_map]
  · exact (List.map_congr_left fun x _ => ofChar_toChar x).trans (List.map_id b)
  · intro c hc
    obtain ⟨x, hx, rfl⟩ := List.mem_map.1 hc
    rw [toNat_toChar]
    exact h x hx

theorem asciiText_ofText {s : String} (h : ∀ x ∈ ofText s, x.toNat < 128) : Head.asciiText (ofText s) = s :=
  ofText_injective (ofText_asciiText h)

theorem ofText_join (texts : List String) : ofText (String.join texts) = texts.flatMap ofText := by
  have hfold : ∀ start : String, ofText (texts.foldl (· ++ ·) start) = ofText start ++ texts.flatMap ofText := by
    induction texts with
    | nil => simp
    | cons t texts ih =>
      intro start
      rw [List.foldl_cons, ih, ofText_append, List.flatMap_cons, List.append_assoc]
  exact hfold ""

end Bytes

/-! ## Scanning what is known -/

namespace Scanner

variable {ε : Type} {p : UInt8 → Bool} {e : ε} {b : UInt8} {rest : Bytes}

theorem byte_of_pos (h : p b = true) : byte p e (b :: rest) = .done b rest := by
  show (if p b then Pure.pure b else fail e : Scanner ε UInt8) rest = _
  rw [if_pos h]
  rfl

/-- A run of bytes of a kind up to one of another kind. -/
theorem span_append {run : Bytes} (h : ∀ x ∈ run, p x = true) (hb : p b = false) :
    (span p : Scanner ε Bytes) (run ++ b :: rest) = .done run (b :: rest) := by
  have hdrop : (run ++ b :: rest).dropWhile p = b :: rest := by
    rw [List.dropWhile_append_of_pos h, List.dropWhile_cons_of_neg (by simp [hb])]
  have htake : (run ++ b :: rest).takeWhile p = run := by
    rw [List.takeWhile_append_of_pos h, List.takeWhile_cons_of_neg (by simp [hb]), List.append_nil]
  simp only [span, hdrop, htake]

theorem literal_append : ∀ bytes : Bytes, literal e bytes (bytes ++ rest) = .done () rest
  | [] => rfl
  | b :: bytes => by
    have hbyte : byte (· == b) e (b :: (bytes ++ rest)) = .done b (bytes ++ rest) := byte_of_pos (by simp)
    rw [literal, List.cons_append, bind_of_done hbyte]
    exact literal_append bytes

theorem newline_crlf : newline e (Bytes.crlf ++ rest) = .done () rest := rfl

end Scanner

/-! ## Names and values that come through -/

/-- A text is a token: it is not empty, and letters, digits and some marks are all there is in it. -/
structure IsToken (s : String) : Prop where
  nonempty : Bytes.ofText s ≠ []
  bytes : ∀ b ∈ Bytes.ofText s, Head.isTokenByte b = true

/-- A text is the value of a field: it has no control bytes, and neither a space nor a tab at its ends. -/
structure IsFieldText (s : String) : Prop where
  bytes : ∀ b ∈ Bytes.ofText s, Head.isValueByte b = true
  first : ∀ b ∈ (Bytes.ofText s).head?, Head.isGap b = false
  last : ∀ b ∈ (Bytes.ofText s).getLast?, Head.isGap b = false

instance (s : String) : Decidable (IsToken s) :=
  decidable_of_iff ((Bytes.ofText s).isEmpty = false ∧ (Bytes.ofText s).all Head.isTokenByte = true) <| by
    rw [List.isEmpty_eq_false_iff, List.all_eq_true]
    exact ⟨fun h => ⟨h.1, h.2⟩, fun h => ⟨h.1, h.2⟩⟩

instance (s : String) : Decidable (IsFieldText s) :=
  decidable_of_iff ((Bytes.ofText s).all Head.isValueByte = true ∧
      (Bytes.ofText s).head?.any Head.isGap = false ∧ (Bytes.ofText s).getLast?.any Head.isGap = false) <| by
    rw [List.all_eq_true, Option.any_eq_false, Option.any_eq_false]
    exact ⟨fun h => ⟨h.1, h.2.1, h.2.2⟩, fun h => ⟨h.bytes, h.first, h.last⟩⟩

/-- What holds of all 256 bytes holds of a byte. -/
theorem Bytes.forall_byte {P : UInt8 → Prop} [DecidablePred P]
    (h : ((List.range 256).all fun n => decide (P (.ofNat n))) = true) (b : UInt8) : P b := by
  have hb := of_decide_eq_true (List.all_eq_true.1 h b.toNat (List.mem_range.2 b.toNat_lt))
  rwa [UInt8.ofNat_toNat] at hb

namespace Head

theorem isTokenByte_ascii : ∀ b : UInt8, isTokenByte b = true → b.toNat < 128 :=
  Bytes.forall_byte (by decide +kernel)

theorem isTokenByte_ne_newline : ∀ b : UInt8, isTokenByte b = true → b ≠ 13 ∧ b ≠ 10 :=
  Bytes.forall_byte (by decide +kernel)

theorem isValueByte_of_digit : ∀ b : UInt8, Bytes.isDigit b = true → isValueByte b = true ∧ isGap b = false :=
  Bytes.forall_byte (by decide +kernel)

end Head

theorem IsToken.asciiText {s : String} (h : IsToken s) : Head.asciiText (Bytes.ofText s) = s :=
  Bytes.asciiText_ofText fun b hb => Head.isTokenByte_ascii b (h.bytes b hb)

/-- How a token is read: its first byte, then the others up to what ends it. -/
theorem IsToken.reads {s : String} (h : IsToken s) :
    ∃ x xs, Bytes.ofText s = x :: xs ∧ Head.isTokenByte x = true ∧ Head.asciiText (x :: xs) = s ∧
      (∀ (e : HeadError) (rest : Bytes), Scanner.byte Head.isTokenByte e (x :: rest) = .done x rest) ∧
      ∀ (b : UInt8) (rest : Bytes), Head.isTokenByte b = false →
        (Scanner.span Head.isTokenByte : Head.Reader Bytes) (xs ++ b :: rest) = .done xs (b :: rest) := by
  have hbytes := h.bytes
  cases hs : Bytes.ofText s with
  | nil => exact absurd hs h.nonempty
  | cons x xs =>
    rw [hs] at hbytes
    have hx := hbytes x List.mem_cons_self
    exact ⟨x, xs, rfl, hx, hs ▸ h.asciiText, fun _ _ => Scanner.byte_of_pos hx,
      fun _ _ hb => Scanner.span_append (fun y hy => hbytes y (List.mem_cons_of_mem _ hy)) hb⟩

/-- Nothing is dropped off a list that does not begin with what is dropped. -/
theorem dropWhile_of_head? {α : Type} {p : α → Bool} {l : List α} (h : ∀ x ∈ l.head?, p x = false) :
    l.dropWhile p = l := by
  cases l with
  | nil => rfl
  | cons x l => exact List.dropWhile_cons_of_neg (by simp [h x rfl])

theorem dropWhile_reverse_of_getLast? {α : Type} {p : α → Bool} {l : List α} (h : ∀ x ∈ l.getLast?, p x = false) :
    (l.reverse.dropWhile p).reverse = l := by
  rw [← List.head?_reverse] at h
  rw [dropWhile_of_head? h, List.reverse_reverse]

namespace Head

theorem version_append (rest : Bytes) : version (Bytes.ofText "HTTP/1.1" ++ rest) = .done .http11 rest := by
  have hsplit : Bytes.ofText "HTTP/1.1" = Bytes.ofText "HTTP/1." ++ [49] := by decide
  rw [hsplit, List.append_assoc, version, Scanner.bind_of_done (Scanner.literal_append _)]
  rfl

/-- The bytes of a line for a field. -/
def lineOf (e : String × String) : Bytes := Bytes.ofText e.1 ++ 58 :: 32 :: (Bytes.ofText e.2 ++ Bytes.crlf)

/-- A line is read as the field it was written for. -/
theorem field_lineOf {e : String × String} (hname : IsToken e.1) (hvalue : IsFieldText e.2) (rest : Bytes) :
    field (lineOf e ++ rest) = .done ⟨e.1, Bytes.ofText e.2⟩ rest := by
  obtain ⟨x, xs, hs, -, htext, hfirst, hothers⟩ := hname.reads
  -- the gap after the colon ends with the value, or with the line if the value is empty
  obtain ⟨b, bs, hnext, hb⟩ : ∃ b bs, Bytes.ofText e.2 ++ 13 :: 10 :: rest = b :: bs ∧ isGap b = false := by
    cases hv : Bytes.ofText e.2 with
    | nil => exact ⟨13, 10 :: rest, rfl, rfl⟩
    | cons b bs => exact ⟨b, bs ++ 13 :: 10 :: rest, rfl, hvalue.first b (by rw [hv]; rfl)⟩
  have hline : lineOf e ++ rest = x :: (xs ++ 58 :: ([32] ++ b :: bs)) := by
    rw [← hnext]
    simp [lineOf, hs, Bytes.crlf]
  have hcolon : (Scanner.byte (· == 58) .headerName : Reader UInt8) (58 :: ([32] ++ b :: bs)) =
      .done 58 ([32] ++ b :: bs) := Scanner.byte_of_pos rfl
  have hgap : (Scanner.span isGap : Reader Bytes) ([32] ++ b :: bs) = .done [32] (b :: bs) :=
    Scanner.span_append (fun x hx => by rw [List.mem_singleton.1 hx]; rfl) hb
  have hrun : (Scanner.span isValueByte : Reader Bytes) (b :: bs) = .done (Bytes.ofText e.2) (13 :: 10 :: rest) := by
    rw [← hnext]
    exact Scanner.span_append hvalue.bytes rfl
  have hend : (Scanner.newline .headerValue : Reader Unit) (13 :: 10 :: rest) = .done () rest := rfl
  rw [hline, field, Scanner.bind_of_done (hfirst _ _), Scanner.bind_of_done (hothers 58 _ rfl),
    Scanner.bind_of_done hcolon, Scanner.bind_of_done hgap, Scanner.bind_of_done hrun, Scanner.bind_of_done hend, htext,
    dropWhile_reverse_of_getLast? hvalue.last]
  rfl

/-- Lines and the empty line after them are read as the fields that they were written for. -/
theorem fields_lines : ∀ {entries : List (String × String)} {slots : Nat}, entries.length ≤ slots →
    (∀ e ∈ entries, IsToken e.1 ∧ IsFieldText e.2) → ∀ rest : Bytes,
      fields slots (entries.flatMap lineOf ++ (Bytes.crlf ++ rest)) =
        .done (entries.map fun e => ⟨e.1, Bytes.ofText e.2⟩) rest
  | [], 0, _, _, rest => rfl
  | [], slots + 1, _, _, rest => rfl
  | e :: entries, 0, hle, _, _ => absurd hle (by simp)
  | e :: entries, slots + 1, hle, hentries, rest => by
    obtain ⟨hname, hvalue⟩ := hentries e List.mem_cons_self
    have hlater := fields_lines (Nat.le_of_succ_le_succ hle) (fun d hd => hentries d (List.mem_cons_of_mem _ hd)) rest
    have hfield := field_lineOf hname hvalue (entries.flatMap lineOf ++ (Bytes.crlf ++ rest))
    obtain ⟨x, xs, hs, hx, -⟩ := hname.reads
    have hpeek : (Scanner.peek : Reader UInt8) ((e :: entries).flatMap lineOf ++ (Bytes.crlf ++ rest)) =
        .done x (lineOf e ++ (entries.flatMap lineOf ++ (Bytes.crlf ++ rest))) := by
      rw [List.flatMap_cons, List.append_assoc, lineOf, hs]
      rfl
    obtain ⟨h13, h10⟩ := isTokenByte_ne_newline x hx
    rw [fields, Scanner.bind_of_done hpeek, if_neg (by simp [h13, h10]), Scanner.bind_of_done hfield,
      Scanner.bind_of_done hlater]
    rfl

/-- The fields that have been read are those that were written. -/
theorem headers_lines (entries : List (String × String)) :
    headers (entries.map fun e => ⟨e.1, Bytes.ofText e.2⟩) = ⟨entries⟩ := by
  rw [headers, List.filterMap_map]
  simp only [Function.comp_def, Bytes.text?_ofText, Option.map_some]
  exact congrArg Headers.mk List.filterMap_some

end Head

/-- The text of header fields has a line for each of them. -/
theorem Headers.ofText_text (h : Headers) : Bytes.ofText h.text = h.entries.flatMap Head.lineOf := by
  have hline : ∀ e : String × String, Bytes.ofText s!"{e.1}: {e.2}\r\n" = Head.lineOf e := by
    intro e
    have hcolon : Bytes.ofText ": " = [58, 32] := by decide
    have hend : Bytes.ofText "\r\n" = Bytes.crlf := by decide
    show Bytes.ofText (e.1 ++ ": " ++ e.2 ++ "\r\n") = _
    simp only [Bytes.ofText_append, hcolon, hend, Head.lineOf]
    simp
  rw [text, Bytes.ofText_join, List.flatMap_map]
  simp only [hline]

/-! ## Fields of one name -/

namespace Headers

theorem getAll_append (n : String) (entries entries' : List (String × String)) :
    getAll n ⟨entries ++ entries'⟩ = getAll n ⟨entries⟩ ++ getAll n ⟨entries'⟩ := by
  simp [getAll]

theorem getAll_singleton (n m v : String) : getAll n ⟨[(m, v)]⟩ = if Text.sameName m n then [v] else [] :=
  getAll_add n m v ⟨[]⟩

/-- Dropping the fields of one name leaves those of another. -/
theorem getAll_remove_of_ne {n m : String} (hne : Text.sameName n m = false) (h : Headers) :
    (h.remove m).getAll n = h.getAll n := by
  rw [getAll, getAll, remove, List.filter_filter]
  congr 1
  refine List.filter_congr fun e _ => ?_
  cases hn : Text.sameName e.1 n with
  | false => rfl
  | true =>
    have hm : Text.sameName e.1 m = false := by
      rw [Bool.eq_false_iff] at hne ⊢
      intro hm
      exact hne (Text.sameName_iff.2 ((Text.sameName_iff.1 hn).symm.trans (Text.sameName_iff.1 hm)))
    rw [hm]
    rfl

theorem getAll_filter_of_ne {n : String} {entries : List (String × String)} {p : String × String → Bool}
    (h : ∀ e, p e = true → Text.sameName e.1 n = false) : getAll n ⟨entries.filter p⟩ = [] := by
  rw [getAll, List.filter_filter, List.map_eq_nil_iff, List.filter_eq_nil_iff]
  rintro e - he
  rw [Bool.and_eq_true] at he
  rw [h e he.2] at he
  cases he.1

theorem hasToken_of_getAll {n v t : String} {h : Headers} (hv : h.getAll n = [v]) :
    h.hasToken n t = ((Text.split ',' v).map Text.trim).any (Text.sameName · t) := by
  rw [hasToken, elements, hv]
  simp

end Headers

/-! ## Lengths -/

namespace Text

/-- Letter case counts on neither side. -/
theorem sameName_congr {b c : String} (h : sameName b c = true) (a : String) : sameName a b = sameName a c := by
  rw [sameName_iff] at h
  rw [sameName, sameName, h]

/-- A decimal digit. -/
theorem isDigit_iff {c : Char} : isDigit c = true ↔ 48 ≤ c.toNat ∧ c.toNat ≤ 57 := by
  simp only [isDigit, Bool.and_eq_true, decide_eq_true_eq, Char.le_def, UInt32.le_iff_toNat_le]
  exact Iff.rfl

theorem isDigit_of_mem_toDigits {n : Nat} {c : Char} (h : c ∈ Nat.toDigits 10 n) : isDigit c = true := by
  have hc := Nat.isDigit_of_mem_toDigits (by decide) (by decide) h
  rw [Char.isDigit, Bool.and_eq_true, decide_eq_true_eq, decide_eq_true_eq, ge_iff_le, UInt32.le_iff_toNat_le,
    UInt32.le_iff_toNat_le] at hc
  exact isDigit_iff.2 hc

theorem isDigit_ofChar {c : Char} (h : isDigit c = true) : Bytes.isDigit (Bytes.ofChar c) = true := by
  obtain ⟨h1, h2⟩ := isDigit_iff.1 h
  have hc : (Bytes.ofChar c).toNat = c.toNat := Nat.mod_eq_of_lt (by omega)
  simp only [Bytes.isDigit, Bool.and_eq_true, decide_eq_true_eq, UInt8.le_iff_toNat_le, hc]
  exact ⟨h1, h2⟩

theorem isBlank_of_isDigit {c : Char} (h : isDigit c = true) : isBlank c = false := by
  obtain ⟨h1, h2⟩ := isDigit_iff.1 h
  simp only [isBlank, Bool.or_eq_false_iff, Bool.and_eq_false_iff, decide_eq_false_iff_not, beq_eq_false_iff_ne]
  omega

/-- Nothing is trimmed off a text without blanks at its ends. -/
theorem trim_of_ends {s : String} (hfirst : ∀ c ∈ s.toList.head?, isBlank c = false)
    (hlast : ∀ c ∈ s.toList.getLast?, isBlank c = false) : trim s = s := by
  rw [trim, trimBy, dropWhile_of_head? hfirst, dropWhile_reverse_of_getLast? hlast, String.ofList_toList]

theorem le_ofDigitChars : ∀ (cs : List Char) (n : Nat), n ≤ Nat.ofDigitChars 10 cs n
  | [], n => by simp
  | c :: cs, n => by
    rw [Nat.ofDigitChars_cons]
    exact Nat.le_trans (by omega) (le_ofDigitChars cs _)

theorem readDigits_eq_ok {max : Nat} : ∀ {cs : List Char} {n : Nat}, (∀ c ∈ cs, isDigit c = true) →
    Nat.ofDigitChars 10 cs n ≤ max → readDigits max n cs = .ok (Nat.ofDigitChars 10 cs n)
  | [], n, _, _ => by simp [readDigits]
  | c :: cs, n, hcs, hmax => by
    rw [Nat.ofDigitChars_cons] at hmax ⊢
    rw [readDigits, if_pos (hcs c List.mem_cons_self), if_pos (Nat.le_trans (le_ofDigitChars cs _) hmax)]
    exact readDigits_eq_ok (fun d hd => hcs d (List.mem_cons_of_mem _ hd)) hmax

/-- The decimal text of a number is read as the number. -/
theorem readNat_toString {max n : Nat} (h : n ≤ max) : readNat max (toString n) = .ok n := by
  have hdigits : ∀ c ∈ Nat.toDigits 10 n, isDigit c = true := fun c hc => isDigit_of_mem_toDigits hc
  have hread : readDigits max 0 (Nat.toDigits 10 n) = _ :=
    readDigits_eq_ok hdigits (by rw [Nat.ofDigitChars_ten_toDigits]; exact h)
  rw [Nat.ofDigitChars_ten_toDigits] at hread
  rw [readNat, Nat.toString_eq_repr, Nat.toList_repr]
  split
  · next hnil => exact absurd hnil Nat.toDigits_ne_nil
  · next c rest hplus =>
    -- a plus sign is no digit
    have hsign := hdigits '+' (by rw [hplus]; exact List.mem_cons_self)
    exact absurd hsign (by decide)
  · exact hread

end Text

/-- A length that is written is read. -/
theorem Headers.length?_toString {n : Nat} (h : n ≤ Text.maxWord) : Headers.length? (toString n) = some n := by
  have hdigits : ∀ c ∈ (toString n).toList, Text.isDigit c = true := by
    intro c hc
    rw [Nat.toString_eq_repr, Nat.toList_repr] at hc
    exact Text.isDigit_of_mem_toDigits hc
  have htrim : Text.trim (toString n) = toString n :=
    Text.trim_of_ends (fun c hc => Text.isBlank_of_isDigit (hdigits c (List.mem_of_mem_head? hc)))
      (fun c hc => Text.isBlank_of_isDigit (hdigits c (List.mem_of_mem_getLast? hc)))
  simp only [Headers.length?, htrim, List.all_eq_true.2 hdigits, if_true, Text.readNat_toString h]
  rfl

/-- One length that is written is how the body ends. -/
theorem Framing.announced_of_length {h : Headers} {n : Nat} (hplain : h.contains "transfer-encoding" = false)
    (hlength : h.getAll "content-length" = [toString n]) (hle : n ≤ Text.maxWord) :
    announced h = .ok (some (ofLength n)) := by
  rw [announced, hplain, hlength, if_neg Bool.false_ne_true, ofLengths, Headers.length?_toString hle]
  rfl

/-- The decimal text of a number is a field text. -/
theorem isFieldText_toString (n : Nat) : IsFieldText (toString n) := by
  have hbytes : ∀ b ∈ Bytes.ofText (toString n), Bytes.isDigit b = true := by
    intro b hb
    rw [Nat.toString_eq_ofList_toDigits,
      Bytes.ofText_ofList_ascii fun c hc => by have h := Text.isDigit_iff.1 (Text.isDigit_of_mem_toDigits hc); omega] at hb
    obtain ⟨c, hc, rfl⟩ := List.mem_map.1 hb
    exact Text.isDigit_ofChar (Text.isDigit_of_mem_toDigits hc)
  have hvalue : ∀ b ∈ Bytes.ofText (toString n), Head.isValueByte b = true ∧ Head.isGap b = false :=
    fun b hb => Head.isValueByte_of_digit b (hbytes b hb)
  exact ⟨fun b hb => (hvalue b hb).1, fun b hb => (hvalue b (List.mem_of_mem_head? hb)).2,
    fun b hb => (hvalue b (List.mem_of_mem_getLast? hb)).2⟩

end Hypertext
