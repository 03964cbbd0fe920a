/-
Bodies of responses that are framed as they should be for the request: there is none, it is written in chunks, it has
the length that is announced, or it lasts until the connection ends. A reader that knows only the head and whether a
HEAD request was made finds the content of such a body and its end, or a flaw, or waits.
-/
import Hypertext.Proofs.Message.ChunkedForm
import Hypertext.Proofs.Message.DeclaredFraming

namespace Hypertext

/-- Whether a response has no body, whatever its fields say. -/
def Method.Bodiless (m : Method) (code : Nat) : Prop :=
  m.text = "HEAD" ∨ 100 ≤ code ∧ code < 200 ∨ code = 204 ∨ code = 304 ∨ m.text = "CONNECT" ∧ 200 ≤ code ∧ code < 300

namespace Headers

/-- The last transfer coding is the chunked one, in any letter case. -/
def EndsChunked (h : Headers) : Prop :=
  ∃ coding, ((h.elements "transfer-encoding").filter (· != "")).getLast? = some coding ∧
    Text.sameName coding "chunked" = true

/-- There is a field that announces a length, and all such fields announce this one. -/
def Announces (n : Nat) (h : Headers) : Prop :=
  h.getAll "content-length" ≠ [] ∧
    ∀ v ∈ h.getAll "content-length", (Bytes.ofText (Text.trim v)).Denotes n

theorem length?_of_denotes {v : String} {n m : Nat} (h : (Bytes.ofText (Text.trim v)).Denotes n)
    (hm : length? v = some m) : m = n := by
  have hdigits := Text.isDigit_of_bytes h.digits
  have hread : length? v = (Text.readNat Text.maxWord (Text.trim v)).toOption := if_pos (List.all_eq_true.2 hdigits)
  rw [hread] at hm
  cases hnat : Text.readNat Text.maxWord (Text.trim v) with
  | error e =>
    rw [hnat] at hm
    cases hm
  | ok k =>
    rw [hnat] at hm
    cases hm
    rw [← h.value, Text.decimal_ofText hdigits]
    exact ((Text.readNat_eq_ok_iff hdigits).1 hnat).2.1.symm

theorem contains_of_elements {name element : String} {h : Headers} (hmem : element ∈ h.elements name) :
    h.contains name = true := by
  rw [← Bool.not_eq_false, contains_eq_false_iff]
  intro hnone
  rw [elements, hnone] at hmem
  cases hmem

end Headers

/-- A body that is framed as it should be: whether it lasts until the connection ends, its bytes, and its content. -/
inductive ProperBody (method : Method) (code : Nat) (h : Headers) : Bool → Bytes → Bytes → Prop
  | none (bodiless : method.Bodiless code) : ProperBody method code h false [] []
  | chunked {wire content : Bytes} (body : ¬method.Bodiless code) (coding : h.EndsChunked)
      (encodes : Chunked.Encodes wire content) : ProperBody method code h false wire content
  | length {wire : Bytes} (body : ¬method.Bodiless code) (coding : h.contains "transfer-encoding" = false)
      (announced : h.Announces wire.length) : ProperBody method code h false wire wire
  | untilClose {wire : Bytes} (body : ¬method.Bodiless code) (coding : ¬h.EndsChunked)
      (unannounced : h.contains "transfer-encoding" = true ∨ h.getAll "content-length" = []) :
      ProperBody method code h true wire wire

namespace Framing

/-- A framing finds a content in bytes, no earlier than at their end; if it lasts until the connection ends, then so do
these bytes, unless there are none. -/
structure Fits (maxBody : Nat) (closes : Bool) (wire content : Bytes) (f : Framing) : Prop where
  decodes : ∀ {part left body rest : Bytes}, part ++ left = wire → f.decode maxBody part = .ok (some (body, rest)) →
    body = content ∧ rest = [] ∧ left = []
  lasts : f = .untilClose → content = wire ∧ (closes = true ∨ wire = [])

variable {f : Framing} {maxBody : Nat} {closes : Bool} {wire content : Bytes}

theorem Fits.of_whole
    (hwhole : ∀ {body rest : Bytes}, f.decode maxBody wire = .ok (some (body, rest)) → body = content ∧ rest = [])
    (hlasts : f = .untilClose → content = wire ∧ (closes = true ∨ wire = [])) : f.Fits maxBody closes wire content where
  decodes {part left body rest} hsplit h := by
    have hall := decode_append h left
    rw [hsplit] at hall
    obtain ⟨rfl, hrest⟩ := hwhole hall
    obtain ⟨rfl, rfl⟩ := List.append_eq_nil_iff.1 hrest
    exact ⟨rfl, rfl, rfl⟩
  lasts := hlasts

/-- Where there is nothing, nothing is found. -/
theorem decode_nil {body rest : Bytes} (h : f.decode maxBody [] = .ok (some (body, rest))) : body = [] ∧ rest = [] := by
  have hrest := List.suffix_nil.1 (decode_suffix h)
  refine ⟨?_, hrest⟩
  cases f with
  | empty =>
    cases h
    rfl
  | length n =>
    obtain ⟨-, -, rfl, -⟩ := decode_length_eq_some_iff.1 h
    exact List.take_nil
  | chunked =>
    have hmore : chunked.decode maxBody [] = Chunked.unfinished 0 maxBody := Chunked.chunks_of_more rfl
    rw [hmore] at h
    exact absurd h (Chunked.unfinished_ne_some _ _ _)
  | untilClose => exact absurd h (decode_untilClose_ne_some _)

theorem fits_nothing (f : Framing) : f.Fits maxBody closes [] [] := .of_whole decode_nil fun _ => ⟨rfl, .inr rfl⟩

end Framing

namespace ProperBody

variable {method : Method} {code : Nat} {h : Headers} {closes : Bool} {wire content : Bytes} {f : Framing} {maxBody : Nat}

/-- Where there is a body the fields say how it is framed. -/
theorem announced_of_body (hbody : ¬method.Bodiless code)
    (hf : Framing.forResponse code (method == .head) h = .ok f) : (Framing.announced h).map (·.getD .untilClose) = .ok f := by
  have hsome : ¬((method == .head) || (100 ≤ code && code < 200) || code == 204 || code == 304) = true := by
    intro hnone
    apply hbody
    simp only [Bool.or_eq_true, beq_iff_eq, Bool.and_eq_true, decide_eq_true_eq] at hnone
    rcases hnone with ((rfl | hcode) | hcode) | hcode
    · exact .inl rfl
    · exact .inr (.inl hcode)
    · exact .inr (.inr (.inl hcode))
    · exact .inr (.inr (.inr (.inl hcode)))
  rw [Framing.forResponse, if_neg hsome] at hf
  exact hf

theorem framing_of_chunked (hcoding : h.EndsChunked) : Framing.announced h = .ok (some .chunked) := by
  obtain ⟨coding, hlast, hname⟩ := hcoding
  have hmem := (List.mem_filter.1 (List.mem_of_mem_getLast? hlast)).1
  rw [Framing.announced, if_pos (Headers.contains_of_elements hmem)]
  have hlast' : ((h.elements "transfer-encoding").filter (· != "")).getLastD "" = coding := by
    rw [List.getLastD_eq_getLast?, hlast, Option.getD_some]
  simp only [hlast', hname, if_true]

theorem fits_length {n : Nat} (hn : wire.length = n) : (Framing.ofLength n).Fits maxBody closes wire wire := by
  unfold Framing.ofLength
  split
  · next hzero =>
    rw [List.eq_nil_of_length_eq_zero (hn.trans hzero)]
    exact Framing.fits_nothing _
  · refine .of_whole (fun hdone => ?_) nofun
    obtain ⟨-, -, rfl, rfl⟩ := Framing.decode_length_eq_some_iff.1 hdone
    rw [← hn, List.take_length, List.drop_length]
    exact ⟨rfl, rfl⟩

/-- A reader that goes by the head of the response and whether a HEAD request was made finds the content of the body. -/
theorem fits (hb : ProperBody method code h closes wire content)
    (hf : Framing.forResponse code (method == .head) h = .ok f) : f.Fits maxBody closes wire content := by
  cases hb with
  | none => exact f.fits_nothing
  | chunked hbody hcoding hencodes =>
    have hannounced := announced_of_body hbody hf
    rw [framing_of_chunked hcoding] at hannounced
    cases hannounced
    exact .of_whole (Chunked.chunks_of_encodes hencodes) nofun
  | length hbody hcoding hlength =>
    obtain ⟨hne, hall⟩ := hlength
    have hannounced := announced_of_body hbody hf
    rw [Framing.announced, hcoding, if_neg Bool.false_ne_true] at hannounced
    obtain ⟨v, others, hvalues⟩ := List.exists_cons_of_ne_nil hne
    rw [hvalues] at hall hannounced
    cases hv : Headers.length? v with
    | none => simp [Framing.ofLengths, hv, Except.map] at hannounced
    | some n =>
      have hn := Headers.length?_of_denotes (hall v List.mem_cons_self) hv
      simp only [Framing.ofLengths, hv] at hannounced
      split at hannounced
      · cases hannounced
        exact fits_length hn.symm
      · cases hannounced
  | untilClose hbody hcoding hunannounced =>
    have hannounced := announced_of_body hbody hf
    have hends : f = .untilClose := by
      unfold Framing.announced at hannounced
      split at hannounced
      · next hcontains =>
        simp only [List.getLastD_eq_getLast?] at hannounced
        split at hannounced
        -- the last coding is not the chunked one
        · next hchunked =>
          cases hlast : ((h.elements "transfer-encoding").filter (· != "")).getLast? with
          | none =>
            rw [hlast] at hchunked
            exact absurd hchunked (by decide)
          | some coding =>
            rw [hlast] at hchunked
            exact absurd ⟨coding, hlast, hchunked⟩ hcoding
        · cases hannounced
      · next hcontains =>
        rw [hunannounced.resolve_left hcontains] at hannounced
        cases hannounced
        rfl
    subst hends
    exact .of_whole (fun hdone => absurd hdone (Framing.decode_untilClose_ne_some _)) fun _ => ⟨rfl, .inl rfl⟩

end ProperBody

end Hypertext
