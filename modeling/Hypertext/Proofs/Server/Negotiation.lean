/-
Negotiation of gzip. A weight is read as a number of single precision, and zero is what such numbers cannot tell from it.
Where gzip is listed and every time with the weight zero, it is taken only for a star that stands for any coding and has
a weight of its own; without one the answer has the body that the handler gave.
-/
import Hypertext.Proofs.Server.KeepAlive
import Mathlib.Algebra.Order.Field.Power
import Mathlib.Tactic.NormNum
import Mathlib.Tactic.Positivity

namespace Hypertext

namespace Coding

/-! ## Weights -/

namespace Magnitude

variable {m : Magnitude}

/-- Half of the least positive value of single precision: up to it a number is read as zero. -/
def bound : ℚ := 1 / 2 ^ 150

def value (m : Magnitude) : ℚ := m.digits * 10 ^ m.exponent

/-- How many digits a number has before its point; none or less if it begins with zeros behind it. -/
def size (m : Magnitude) : Int := (Nat.toDigits 10 m.digits).length + m.exponent

theorem value_lt (m : Magnitude) : m.value < 10 ^ m.size := by
  have hdigits : m.digits < 10 ^ (Nat.toDigits 10 m.digits).length :=
    (Nat.length_toDigits_le_iff (by decide) Nat.length_toDigits_pos).1 (Nat.le_refl _)
  rw [value, size, zpow_add₀ (by norm_num), zpow_natCast]
  exact mul_lt_mul_of_pos_right (mod_cast hdigits) (by positivity)

theorem le_value (h : m.digits ≠ 0) : 10 ^ (m.size - 1) ≤ m.value := by
  have hpos : 0 < (Nat.toDigits 10 m.digits).length := Nat.length_toDigits_pos
  have hdigits : 10 ^ ((Nat.toDigits 10 m.digits).length - 1) ≤ m.digits := by
    rcases Nat.eq_zero_or_pos ((Nat.toDigits 10 m.digits).length - 1) with hzero | hmore
    · rw [hzero]
      omega
    · exact Nat.not_lt.1 fun hlt => by
        have hshort := (Nat.length_toDigits_le_iff (by decide) hmore).2 hlt
        omega
  have hsize : m.size - 1 = ((Nat.toDigits 10 m.digits).length - 1 : ℕ) + m.exponent := by
    rw [size]
    omega
  rw [value, hsize, zpow_add₀ (by norm_num), zpow_natCast]
  exact mul_le_mul_of_nonneg_right (mod_cast hdigits) (by positivity)

theorem isPositive_iff : m.isPositive = true ↔ bound < m.value := by
  have hlt := m.value_lt
  show (if (decide (m.digits = 0) || decide (m.size < -60)) = true then false
    else if 0 < m.size then true else decide (Nat.pow 10 (-m.exponent).toNat < m.digits <<< 150)) = true ↔ _
  by_cases hzero : m.digits = 0
  · have hvalue : ¬bound < m.value := by simp [value, hzero, bound]
    simp [hzero, hvalue]
  by_cases hsmall : m.size < -60
  · have hbound : (10 : ℚ) ^ m.size ≤ 10 ^ (-61 : ℤ) := zpow_le_zpow_right₀ (by norm_num) (by omega)
    have hvalue : ¬bound < m.value := by
      rw [not_lt]
      calc m.value ≤ 10 ^ m.size := hlt.le
        _ ≤ 10 ^ (-61 : ℤ) := hbound
        _ ≤ bound := by norm_num [bound]
    simp [hsmall, hvalue]
  rw [if_neg (by simp [hzero, hsmall])]
  by_cases hlarge : 0 < m.size
  · have hbound : (10 : ℚ) ^ (0 : ℤ) ≤ 10 ^ (m.size - 1) := zpow_le_zpow_right₀ (by norm_num) (by omega)
    have hvalue : bound < m.value := by
      calc bound < 10 ^ (0 : ℤ) := by norm_num [bound]
        _ ≤ 10 ^ (m.size - 1) := hbound
        _ ≤ m.value := le_value hzero
    simp [hlarge, hvalue]
  · -- the exponent is not positive, so the comparison of whole numbers is exact
    obtain ⟨k, hk⟩ : ∃ k : ℕ, m.exponent = -k := by
      refine ⟨(-m.exponent).toNat, ?_⟩
      rw [size] at hlarge
      omega
    have hvalue : m.value = m.digits / 10 ^ k := by
      rw [value, hk, zpow_neg, zpow_natCast, div_eq_mul_inv]
    rw [if_neg hlarge, decide_eq_true_eq, hvalue, bound, hk, neg_neg, Int.toNat_natCast, Nat.shiftLeft_eq,
      div_lt_div_iff₀ (by positivity) (by positivity), one_mul]
    exact_mod_cast Iff.rfl

end Magnitude

/-- A text that is read as zero: a number, with or without a sign, that is not positive in single precision. -/
def IsZero (s : String) : Prop :=
  ∃ sign cs m, s.toList = sign ++ cs ∧ (sign = [] ∨ sign = ['+'] ∨ sign = ['-']) ∧ readMagnitude? cs = some m ∧
    m.value ≤ Magnitude.bound

/-- A number begins with a digit or a point. -/
theorem exists_of_readMagnitude {cs : List Char} {m : Magnitude} (h : readMagnitude? cs = some m) :
    ∃ c rest, cs = c :: rest ∧ (Text.isDigit c = true ∨ c = '.') := by
  cases cs with
  | nil => cases h
  | cons c rest =>
    refine ⟨c, rest, rfl, ?_⟩
    by_contra hstart
    rw [not_or] at hstart
    obtain ⟨hdigit, hpoint⟩ := hstart
    simp only [readMagnitude?, List.takeWhile_cons_of_neg hdigit, List.length_nil, List.drop_zero] at h
    split at h
    · next heq => exact hpoint (List.cons.inj heq).1
    · simp at h

theorem toLower_of_start {c : Char} (h : Text.isDigit c = true ∨ c = '.') : c.toLower = c := by
  have hsmall : ¬('A'.val ≤ c.val ∧ c.val ≤ 'Z'.val) := by
    rintro ⟨hle, -⟩
    rcases h with hdigit | rfl
    · simp only [Text.isDigit, Bool.and_eq_true, decide_eq_true_eq] at hdigit
      exact absurd (UInt32.le_trans hle hdigit.2) (by decide)
    · exact absurd hle (by decide)
  exact dif_neg hsmall

/-- No sign and no letter begins a number. -/
theorem ne_of_readMagnitude {cs : List Char} {m : Magnitude} (h : readMagnitude? cs = some m) (c : Char)
    (hc : Text.isDigit c = false ∧ c ≠ '.') (rest : List Char) : cs ≠ c :: rest ∧ cs.map Char.toLower ≠ c :: rest := by
  obtain ⟨first, others, rfl, hfirst⟩ := exists_of_readMagnitude h
  have hne : first ≠ c := by
    rintro rfl
    rcases hfirst with hdigit | hpoint
    · rw [hc.1] at hdigit
      cases hdigit
    · exact hc.2 hpoint
  refine ⟨fun heq => hne (List.cons.inj heq).1, fun heq => hne ?_⟩
  rw [List.map_cons, toLower_of_start hfirst] at heq
  exact (List.cons.inj heq).1

theorem positiveWeight?_of_isZero {s : String} (h : IsZero s) : positiveWeight? s = some false := by
  obtain ⟨sign, cs, m, hs, hsign, hread, hvalue⟩ := h
  have hpositive : m.isPositive = false := Bool.eq_false_iff.2 (mt Magnitude.isPositive_iff.1 hvalue.not_gt)
  have hstart := ne_of_readMagnitude hread
  -- whatever the sign, the rest is no word
  have hwords : ∀ word : List Char, (∃ c rest, word = c :: rest ∧ Text.isDigit c = false ∧ c ≠ '.') →
      (String.ofList (cs.map Char.toLower) == String.ofList word) = false := by
    rintro word ⟨c, rest, rfl, hc⟩
    rw [beq_eq_false_iff_ne]
    exact fun heq => (hstart c hc rest).2 (String.ofList_injective heq)
  have hinf := hwords "inf".toList ⟨'i', "nf".toList, by decide, by decide⟩
  have hinfinity := hwords "infinity".toList ⟨'i', "nfinity".toList, by decide, by decide⟩
  have hnan := hwords "nan".toList ⟨'n', "an".toList, by decide, by decide⟩
  rw [String.ofList_toList] at hinf hinfinity hnan
  rw [positiveWeight?, hs]
  rcases hsign with rfl | rfl | rfl
  · rw [List.nil_append]
    split
    next negative rest heq =>
      split at heq
      · exact absurd rfl (hstart '-' (by decide) _).1
      · exact absurd rfl (hstart '+' (by decide) _).1
      · cases heq
        simp [hinf, hinfinity, hnan, hread, hpositive]
  · simp [hinf, hinfinity, hnan, hread, hpositive]
  · simp [hinf, hinfinity, hnan, hread, hpositive]

/-! ## Acceptance -/

/-- The elements of the Accept-Encoding fields. -/
def offers (h : Headers) : List String := (h.getAll "accept-encoding").flatMap (Text.split ',')

/-- The weight of an element: what its first parameter with the name q says. -/
def weight? (element : String) : Option String :=
  (((Text.split ';' element).map Text.trim).drop 1).findSome? fun p =>
    (Text.dropPrefix? "q=" p).or (Text.dropPrefix? "Q=" p)

/-- gzip is refused: it is listed, and every time its weight is zero. -/
structure RefusesGzip (h : Headers) : Prop where
  named : ∃ e ∈ offers h, isGzip (listed e).1 = true
  zero : ∀ e ∈ offers h, isGzip (listed e).1 = true → ∃ q, weight? e = some q ∧ IsZero q

/-- A star is listed, and its weight is positive. -/
def WantsAny (h : Headers) : Prop := ∃ e ∈ offers h, (listed e).1 = "*" ∧ (listed e).2 = true

variable {h : Headers}

theorem listed_of_isZero {e q : String} (hq : weight? e = some q) (hzero : IsZero q) : (listed e).2 = false := by
  have hweight : (listed e).2 = ((weight? e).bind positiveWeight?).getD true := rfl
  rw [hweight, hq, Option.bind_some, positiveWeight?_of_isZero hzero]
  rfl

/-- Where gzip is refused it is accepted only by way of a star. -/
theorem RefusesGzip.acceptsGzip_iff (href : RefusesGzip h) : acceptsGzip h = true ↔ WantsAny h := by
  have haccepts : acceptsGzip h = true ↔
      ∃ e ∈ offers h, (listed e).2 = true ∧ (isGzip (listed e).1 = true ∨ (listed e).1 = "*") := by
    show (offers h).any _ = true ↔ _
    simp only [List.any_eq_true, Bool.and_eq_true, Bool.or_eq_true, beq_iff_eq]
  rw [haccepts]
  constructor
  · rintro ⟨e, he, hweight, hgzip | hstar⟩
    · obtain ⟨q, hq, hzero⟩ := href.zero e he hgzip
      rw [listed_of_isZero hq hzero] at hweight
      cases hweight
    · exact ⟨e, he, hstar, hweight⟩
  · rintro ⟨e, he, hstar, hweight⟩
    exact ⟨e, he, hweight, .inr hstar⟩

end Coding

/-! ## Answers -/

/-- To a peer that does not accept gzip a response is written as the handler gave it. -/
theorem Exchange.answer_uncompressed (running : Bool) (outcome : Except DispatchError Response) {x : Exchange}
    (h : x.acceptsGzip = false) :
    (x.answer running outcome).bytes =
      Response.encode x.head { (settle outcome).1 with keepAlive := x.keeps running outcome } := by
  simp only [answer, h, Response.compressed, Bool.not_false, Bool.true_or, if_true, keeps, isNone_settle]

namespace Lifetime

open Coding

/-- A peer refuses gzip: it lists gzip, and every time with the weight zero. Then gzip counts as accepted exactly if a
star with a positive weight is listed, wherever it stands and whatever else is listed; and if none is, the answer to
the request is written as the handler gave it, with the same body. -/
theorem uncompressed_of_refused {h : Headers} (href : RefusesGzip h) :
    (acceptsGzip h = true ↔ WantsAny h) ∧
      ∀ (rules : ConnectionRules) (id : ConnectionId) (capacity now : Nat) (t : Lifetime),
        Run rules (start rules id capacity now) t → ∀ (i : Nat) (call : Call) (status : ShutdownState),
          t.calls[i]? = some call → t.sampled[i]? = some status → call.request.headers = h → ¬WantsAny h →
            t.connection.answered[i]? = some (Response.encode (call.request.method == .head)
              { (Exchange.settle call.outcome).1 with
                keepAlive := (Exchange.ofRequest rules.compress rules.encode call.request).keeps status.isRunning
                  call.outcome }) := by
  refine ⟨href.acceptsGzip_iff, ?_⟩
  rintro rules id capacity now t hrun i call status hcall hstatus rfl hnone
  have haccepts : acceptsGzip call.request.headers = false := Bool.eq_false_iff.2 (mt href.acceptsGzip_iff.1 hnone)
  have hexchange : (Exchange.ofRequest rules.compress rules.encode call.request).acceptsGzip = false := by
    rw [Exchange.ofRequest, haccepts, Bool.and_false]
  rw [(hrun.orderly (orderly_start id capacity now)).getElem?_answered hcall hstatus]
  exact congrArg some (Exchange.answer_uncompressed _ _ hexchange)

/-- gzip is refused, and so is what is not listed. -/
def noGzip : Headers := ⟨[("Accept-Encoding", "gzip;q=0, br, *;q=0")]⟩

theorem isZero_digit : IsZero "0" :=
  ⟨[], ['0'], ⟨0, 0⟩, rfl, .inl rfl, rfl, by norm_num [Magnitude.value, Magnitude.bound]⟩

theorem refusesGzip_of_digit {h : Headers} (hnamed : ∃ e ∈ offers h, isGzip (listed e).1 = true)
    (hdigit : ∀ e ∈ offers h, isGzip (listed e).1 = true → weight? e = some "0") : RefusesGzip h :=
  ⟨hnamed, fun e he hgzip => ⟨"0", hdigit e he hgzip, isZero_digit⟩⟩

/-- A text that is long enough to be compressed. -/
def longText : Response := .ofText "a text of more than two and thirty letters"

/-- The text is served, and compressed for those who accept gzip. -/
def servesText : ConnectionRules where
  dispatcher := ⟨⟨[⟨.get, ⟨"/a", [.literal "a"]⟩, fun _ => ⟨3, .response longText⟩⟩]⟩, .ofMillis 9⟩
  idleTimeout := 10
  maxRequestBytes := 64
  compress := true

def asksText : Request := { Request.new .get "/a" with headers := noGzip }

/-- A peer that refuses gzip asks for the text and gets it as it is. -/
theorem uncompressed_of_refused_text :
    ∃ t, Run servesText (start servesText ⟨1⟩ 64 0) t ∧
      t.sent = Bytes.ofText "GET /a HTTP/1.1\r\nAccept-Encoding: gzip;q=0, br, *;q=0\r\n\r\n" ∧ RefusesGzip noGzip ∧
      acceptsGzip noGzip = false ∧ t.connection.answered[0]? = some (Response.encode false longText) := by
  have hfront : Request.front? (Bytes.ofText "GET /a HTTP/1.1\r\nAccept-Encoding: gzip;q=0, br, *;q=0\r\n\r\n") =
      some (asksText, []) := by decide
  have href : RefusesGzip noGzip := refusesGzip_of_digit (by decide) (by decide)
  obtain ⟨haccepts, hanswered⟩ := uncompressed_of_refused href
  have hnone : ¬WantsAny noGzip := by
    rw [← haccepts]
    decide
  obtain ⟨t, hrun, hsent, hcalls, hsampled, -⟩ := run_request servesText ⟨1⟩ 64 0 (by decide) (by decide)
    (Admission.serve_of_front? hfront (by decide))
  have hcall : t.calls[0]? = some ⟨asksText, servesText.dispatcher⟩ := by
    rw [hcalls]
    rfl
  have hstatus : t.sampled[0]? = some .running := by
    rw [hsampled]
    rfl
  have houtcome : Call.outcome ⟨asksText, servesText.dispatcher⟩ = .ok longText := by rfl
  have hkeeps : (Exchange.ofRequest true Gzip.gzip asksText).keeps true (.ok longText) = true := by rfl
  refine ⟨t, hrun, hsent, href, Bool.eq_false_iff.2 (mt haccepts.1 hnone), ?_⟩
  rw [hanswered servesText ⟨1⟩ 64 0 t hrun 0 _ .running hcall hstatus rfl hnone, houtcome]
  show some (Response.encode false
    { longText with keepAlive := (Exchange.ofRequest true Gzip.gzip asksText).keeps true _ }) = _
  rw [hkeeps]
  rfl

/-- A star with a weight of its own makes up for gzip that is refused. -/
theorem star_overrides_refusal :
    RefusesGzip ⟨[("Accept-Encoding", "gzip;q=0, *")]⟩ ∧ acceptsGzip ⟨[("Accept-Encoding", "gzip;q=0, *")]⟩ = true :=
  ⟨refusesGzip_of_digit (by decide) (by decide), by decide⟩

end Lifetime

end Hypertext
