/-
The size of requests. What is taken off a buffer for a request that has a body, its head, the size lines, the data and
the trailers included, is no more than the limit; only the empty line after chunks is not counted. Of a request that is
larger no more bytes than the limit are waited for, and then it is refused, in whatever pieces it comes. A request
without a body is not held against the limit once its head is there.
-/
import Hypertext.Proofs.Message.BodySize
import Hypertext.Proofs.Server.Admission

namespace Hypertext

namespace Framing

/-! ## Framings of requests -/

theorem ofLengths_ne_zero (values : List String) : ofLengths values ≠ .ok (some (.length 0)) := by
  intro h
  unfold ofLengths at h
  split at h
  · cases h
  · split at h
    · cases h
    · next n _ =>
      split at h
      · unfold ofLength at h
        split at h
        · cases h
        · next hn =>
          cases h
          exact hn rfl
      · cases h

/-- A length of zero is the same as no body. -/
theorem forRequest_ne_zero (h : Headers) : forRequest h ≠ .ok (.length 0) := by
  intro hzero
  unfold forRequest at hzero
  cases ha : announced h with
  | error e =>
    rw [ha] at hzero
    cases hzero
  | ok f =>
    rw [ha] at hzero
    cases f with
    | none => cases hzero
    | some f =>
      cases hzero
      unfold announced at ha
      split at ha
      · dsimp only at ha
        split at ha
        · cases ha
        · cases ha
      · exact ofLengths_ne_zero _ ha

end Framing

namespace Request

/-! ## Requests in a growing stream -/

variable {s rest : Bytes} {r : Request}

theorem parse_suffix (h : parse s = .ok (r, rest)) : rest <:+ s := by
  obtain ⟨head, hs, -⟩ := parse_eq_ok_iff.1 h
  exact Head.request_incremental.suffix hs

/-- The request at the front of a stream stays there when more bytes follow. -/
theorem front?_append (h : front? s = some (r, rest)) (t : Bytes) : front? (s ++ t) = some (r, rest ++ t) := by
  obtain ⟨head, afterHead, framing, body, hp, hf, hd, hr⟩ := front?_eq_some_iff.1 h
  refine front?_eq_some_iff.2 ⟨head, afterHead ++ t, framing, body, parse_append hp t, hf, ?_, hr⟩
  have hlt := parse_lt hp
  refine Framing.decode_limit (Framing.decode_append hd t) ?_
  simp only [List.length_append]
  omega

/-- The bytes begin a request that has a body and is larger than the limit allows. -/
def Exceeds (limit : Nat) (b : Bytes) : Prop :=
  ∃ t r rest framing, front? (b ++ t) = some (r, rest) ∧ r.framing = .ok framing ∧ framing ≠ .empty ∧
    limit + framing.uncounted < (b ++ t).length - rest.length

theorem Exceeds.of_append {limit : Nat} {b t : Bytes} (h : Exceeds limit (b ++ t)) : Exceeds limit b := by
  obtain ⟨u, r, rest, framing, hfront, hf, hne, hlt⟩ := h
  rw [List.append_assoc] at hfront hlt
  exact ⟨t ++ u, r, rest, framing, hfront, hf, hne, hlt⟩

end Request

namespace Admission

/-! ## What is served, awaited and refused -/

variable {limit : Nat} {b rest : Bytes} {r : Request}

/-- A request that is served has no body, or is no larger than the limit allows. -/
theorem size_of_serve (h : ofBuffer limit b = .serve r rest) :
    ∃ framing, r.framing = .ok framing ∧
      (framing = .empty ∨ b.length - rest.length ≤ limit + framing.uncounted) := by
  obtain ⟨head, afterHead, framing, body, hp, hf, hd, rfl⟩ := ofBuffer_eq_serve_iff.1 h
  refine ⟨framing, hf, ?_⟩
  by_cases hempty : framing = .empty
  · exact .inl hempty
  · have hzero : framing ≠ .length 0 := by
      rintro rfl
      exact Framing.forRequest_ne_zero _ hf
    have hsize := Framing.decode_size hempty hzero hd
    have hlt := Request.parse_lt hp
    exact .inr (by omega)

theorem serve_suffix (h : ofBuffer limit b = .serve r rest) : rest <:+ b := by
  obtain ⟨head, afterHead, framing, body, hp, -, hd, -⟩ := ofBuffer_eq_serve_iff.1 h
  exact (Framing.decode_suffix hd).trans (Request.parse_suffix hp)

/-- No more bytes than the limit are waited with. -/
theorem length_le_of_wait (h : ofBuffer limit b = .wait) : b.length ≤ limit := by
  have hunfinished : unfinished limit b = .wait → b.length ≤ limit := by
    intro hu
    unfold unfinished at hu
    split at hu
    · cases hu
    · omega
  unfold ofBuffer at h
  split at h
  · next hempty =>
    rw [List.isEmpty_iff.1 hempty]
    exact Nat.zero_le _
  · split at h
    · exact hunfinished h
    · cases h
    · split at h
      · cases h
      · cases h
      · unfold ofBody at h
        split at h
        · cases h
        · exact hunfinished h
        · cases h
        · cases h

/-- What is malformed does not become a request. -/
theorem front?_of_malformed {t : Bytes} (h : ofBuffer limit b = malformed) : Request.front? (b ++ t) = none := by
  cases hfront : Request.front? (b ++ t) with
  | none => rfl
  | some p =>
    exfalso
    obtain ⟨r, rest⟩ := p
    obtain ⟨head, afterHead, framing, body, hp, hf, hd, -⟩ := Request.front?_eq_some_iff.1 hfront
    have hunfinished : unfinished limit b ≠ malformed := by
      unfold unfinished
      split
      · nofun
      · nofun
    unfold ofBuffer at h
    split at h
    · cases h
    · split at h
      · exact hunfinished h
      · next e hb =>
        rw [Request.parse_malformed_append hb] at hp
        cases hp
      · next head' afterHead' hb =>
        rw [Request.parse_append hb] at hp
        cases hp
        simp only [hf] at h
        split at h
        · next hf' => cases hf'
        · next hf' =>
          cases hf'
          exact Framing.decode_untilClose_ne_some _ hd
        · next framing' _ hf' =>
          cases hf'
          unfold ofBody at h
          split at h
          · cases h
          · exact hunfinished h
          · cases h
          · next e he hd' => exact Framing.decode_flaw_append hd' he t _ hd

theorem not_malformed_of_exceeds (h : Request.Exceeds limit b) : ¬∃ a, a <+: b ∧ ofBuffer limit a = malformed := by
  rintro ⟨a, ⟨c, rfl⟩, hmalformed⟩
  obtain ⟨t, r, rest, framing, hfront, -⟩ := h.of_append
  rw [front?_of_malformed hmalformed] at hfront
  cases hfront

/-- However much of it is there, a request that is larger than the limit allows is waited for or refused as such. -/
theorem ofBuffer_of_exceeds (h : Request.Exceeds limit b) : ofBuffer limit b = .wait ∨ ofBuffer limit b = tooLarge := by
  obtain ⟨t, r, rest, framing, hfront, hf, hne, hlt⟩ := h
  cases hb : ofBuffer limit b with
  | wait => exact .inl rfl
  | serve r' rest' =>
    -- it would be the same request, and so not too large
    have hfront' := Request.front?_append (front?_of_serve hb) t
    rw [hfront] at hfront'
    cases hfront'
    obtain ⟨framing', hf', hsize⟩ := size_of_serve hb
    rw [hf] at hf'
    cases hf'
    rw [List.length_append, List.length_append, Nat.add_sub_add_right] at hlt
    exact absurd (hsize.resolve_left hne) (by omega)
  | refuse status reason =>
    rcases refuse_cases hb with ht | hm
    · exact .inr (hb.symm.trans ht)
    · rw [front?_of_malformed hm] at hfront
      cases hfront

end Admission

end Hypertext
