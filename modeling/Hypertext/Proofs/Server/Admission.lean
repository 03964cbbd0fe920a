/-
Admission and the way a stream is cut: what a connection makes of the bytes it has read so far is what it would make
of all bytes of the stream, as long as each request of the stream, and what follows the last one, is no larger than
the limit.
-/
import Hypertext.Proofs.Message.Delimited
import Hypertext.Server.Admission

namespace Hypertext

namespace Request

/-! ## Heads in a growing buffer -/

variable {s t rest : Bytes} {r : Request}

theorem parse_eq_ok_iff :
    parse s = .ok (r, rest) ↔ ∃ h, Head.request s = .done h rest ∧ ofHead h = r := by
  unfold parse
  constructor
  · intro h
    split at h
    · next head rest' hs => cases h; exact ⟨head, hs, rfl⟩
    · cases h
    · cases h
  · rintro ⟨head, hs, rfl⟩
    rw [hs]

theorem parse_incomplete_iff : parse s = .error .incomplete ↔ Head.request s = .more := by
  unfold parse
  split <;> simp_all

theorem parse_malformed_iff {e : HeadError} : parse s = .error (.malformed e) ↔ Head.request s = .bad e := by
  unfold parse
  split <;> simp_all

theorem parse_lt (h : parse s = .ok (r, rest)) : rest.length < s.length := by
  obtain ⟨head, hs, -⟩ := parse_eq_ok_iff.1 h
  exact Head.request_consumes _ _ _ hs

theorem parse_append (h : parse s = .ok (r, rest)) (t : Bytes) : parse (s ++ t) = .ok (r, rest ++ t) := by
  obtain ⟨head, hs, rfl⟩ := parse_eq_ok_iff.1 h
  exact parse_eq_ok_iff.2 ⟨head, Head.request_incremental.done hs t, rfl⟩

theorem parse_malformed_append {e : HeadError} (h : parse s = .error (.malformed e)) (t : Bytes) :
    parse (s ++ t) = .error (.malformed e) :=
  parse_malformed_iff.2 (Head.request_incremental.bad (parse_malformed_iff.1 h) t)

theorem parse_completed (h : parse s = .error .incomplete) (h' : parse (s ++ t) = .ok (r, rest)) :
    rest.length ≤ t.length := by
  obtain ⟨head, hs, -⟩ := parse_eq_ok_iff.1 h'
  exact Head.request_incremental.more (parse_incomplete_iff.1 h) hs

/-! ## The requests of a stream -/

/-- The request at the front of a stream, with its body as its header fields frame it, and the bytes after it. -/
def front? (stream : Bytes) : Option (Request × Bytes) :=
  match parse stream with
  | .error _ => none
  | .ok (request, afterHead) =>
    match request.framing with
    | .error _ => none
    | .ok framing =>
      match framing.decode stream.length afterHead with
      | .ok (some (body, rest)) => some ({ request with body }, rest)
      | _ => none

theorem front?_eq_some_iff :
    front? s = some (r, rest) ↔
      ∃ head afterHead framing body, parse s = .ok (head, afterHead) ∧ head.framing = .ok framing ∧
        framing.decode s.length afterHead = .ok (some (body, rest)) ∧ { head with body } = r := by
  unfold front?
  constructor
  · intro h
    split at h
    · cases h
    · next head afterHead hp =>
      split at h
      · cases h
      · next framing hf =>
        split at h
        · next body rest' hd =>
          cases h
          exact ⟨head, afterHead, framing, body, hp, hf, hd, rfl⟩
        · cases h
  · rintro ⟨head, afterHead, framing, body, hp, hf, hd, rfl⟩
    simp only [hp, hf, hd]

/-- A request takes at least one byte off the stream. -/
theorem front?_lt (h : front? s = some (r, rest)) : rest.length < s.length := by
  obtain ⟨head, afterHead, framing, body, hp, -, hd, -⟩ := front?_eq_some_iff.1 h
  exact Nat.lt_of_le_of_lt (Framing.decode_suffix hd).length_le (parse_lt hp)

/-- The successive requests of a stream. -/
def sequence (stream : Bytes) : List Request :=
  match _h : front? stream with
  | none => []
  | some (request, rest) => request :: sequence rest
termination_by stream.length
decreasing_by exact front?_lt _h

theorem sequence_of_front? (h : front? s = some (r, rest)) : sequence s = r :: sequence rest := by
  rw [sequence]
  split
  · next h' => rw [h] at h'; cases h'
  · next r' rest' h' => rw [h] at h'; cases h'; rfl

/-- Each successive request of a stream, and what remains after the last one, takes at most so many bytes. -/
inductive Fits (limit : Nat) : Bytes → Prop
  | request {stream rest : Bytes} {r : Request} (front : front? stream = some (r, rest))
      (size : stream.length - rest.length ≤ limit) (later : Fits limit rest) : Fits limit stream
  | remainder {stream : Bytes} (front : front? stream = none) (size : stream.length ≤ limit) : Fits limit stream

theorem Fits.later {limit : Nat} (h : Fits limit s) (hs : front? s = some (r, rest)) : Fits limit rest := by
  cases h with
  | request front _ later => rw [hs] at front; cases front; exact later
  | remainder front _ => rw [hs] at front; cases front

end Request

namespace Admission

/-! ## The parts of a decision -/

variable {limit : Nat} {b t rest : Bytes} {r : Request} {status : Status} {reason : CloseReason}

theorem unfinished_ne_serve : unfinished limit b ≠ .serve r rest := by
  unfold unfinished tooLarge
  split <;> simp

theorem unfinished_of_le (h : b.length ≤ limit) : unfinished limit b = .wait := if_neg (by omega)

theorem ofBody_eq_serve_iff {head : Request} {afterHead : Bytes} {framing : Framing} :
    ofBody limit b head afterHead framing = .serve r rest ↔
      ∃ body, framing.decode (limit - (b.length - afterHead.length)) afterHead = .ok (some (body, rest)) ∧
        { head with body } = r := by
  unfold ofBody
  constructor
  · intro h
    split at h
    · next body rest' hd => cases h; exact ⟨body, hd, rfl⟩
    · exact absurd h unfinished_ne_serve
    · cases h
    · cases h
  · rintro ⟨body, hd, rfl⟩
    rw [hd]

theorem ofBuffer_of_parse {head : Request} {afterHead : Bytes} {framing : Framing}
    (hp : Request.parse b = .ok (head, afterHead)) (hf : head.framing = .ok framing) (hc : framing ≠ .untilClose) :
    ofBuffer limit b = ofBody limit b head afterHead framing := by
  have hne : b.isEmpty = false := by
    cases b with
    | nil => exact absurd (Request.parse_lt hp) (by simp)
    | cons => rfl
  unfold ofBuffer
  simp only [hne, Bool.false_eq_true, if_false, hp, hf]

theorem ofBuffer_eq_serve_iff :
    ofBuffer limit b = .serve r rest ↔
      ∃ head afterHead framing body, Request.parse b = .ok (head, afterHead) ∧ head.framing = .ok framing ∧
        framing.decode (limit - (b.length - afterHead.length)) afterHead = .ok (some (body, rest)) ∧
        { head with body } = r := by
  constructor
  · intro h
    unfold ofBuffer at h
    split at h
    · cases h
    · split at h
      · exact absurd h unfinished_ne_serve
      · cases h
      · next head afterHead hp =>
        split at h
        · cases h
        · cases h
        · next framing _ hf =>
          obtain ⟨body, hd, hr⟩ := ofBody_eq_serve_iff.1 h
          exact ⟨head, afterHead, framing, body, hp, hf, hd, hr⟩
  · rintro ⟨head, afterHead, framing, body, hp, hf, hd, rfl⟩
    have hc : framing ≠ .untilClose := by
      rintro rfl
      exact Framing.decode_untilClose_ne_some _ hd
    rw [ofBuffer_of_parse hp hf hc]
    exact ofBody_eq_serve_iff.2 ⟨body, hd, rfl⟩

/-- What is refused is too large, or no request. -/
theorem refuse_cases (h : ofBuffer limit b = .refuse status reason) :
    ofBuffer limit b = tooLarge ∨ ofBuffer limit b = malformed := by
  have hunfinished : unfinished limit b = .refuse status reason → unfinished limit b = tooLarge := by
    intro hu
    unfold unfinished at hu ⊢
    split
    · rfl
    · next hle =>
      rw [if_neg hle] at hu
      cases hu
  unfold ofBuffer at h ⊢
  split
  · next he =>
    rw [if_pos he] at h
    cases h
  · next he =>
    rw [if_neg he] at h
    split
    · next hp =>
      rw [hp] at h
      exact .inl (hunfinished h)
    · exact .inr rfl
    · next head afterHead hp =>
      simp only [hp] at h
      split
      · exact .inr rfl
      · exact .inr rfl
      · next framing hc hf =>
        simp only [hf] at h
        unfold ofBody at h ⊢
        split
        · next hd =>
          simp only [hd] at h
          cases h
        · next hd =>
          simp only [hd] at h
          exact .inl (hunfinished h)
        · exact .inl rfl
        · exact .inr rfl

/-- What is refused is refused for what it is. -/
theorem refuse_ne_idleTimeout : ofBuffer limit b ≠ .refuse status .idleTimeout := by
  intro h
  rcases refuse_cases h with ht | hm
  · rw [h] at ht
    cases ht
  · rw [h] at hm
    cases hm

/-! ## Decisions on a prefix -/

/-- A request that is served is the first one of the buffer. -/
theorem front?_of_serve (h : ofBuffer limit b = .serve r rest) : Request.front? b = some (r, rest) := by
  obtain ⟨head, afterHead, framing, body, hp, hf, hd, hr⟩ := ofBuffer_eq_serve_iff.1 h
  have hle := Request.parse_lt hp
  exact Request.front?_eq_some_iff.2 ⟨head, afterHead, framing, body, hp, hf, Framing.decode_limit hd (by omega), hr⟩

/-- The first request of the buffer is served if it is not too large. -/
theorem serve_of_front? (h : Request.front? b = some (r, rest)) (hle : b.length - rest.length ≤ limit) :
    ofBuffer limit b = .serve r rest := by
  obtain ⟨head, afterHead, framing, body, hp, hf, hd, hr⟩ := Request.front?_eq_some_iff.1 h
  have hlt := Request.parse_lt hp
  have hrest := (Framing.decode_suffix hd).length_le
  refine ofBuffer_eq_serve_iff.2 ⟨head, afterHead, framing, body, hp, hf, Framing.decode_limit hd ?_, hr⟩
  omega

theorem serve_lt (h : ofBuffer limit b = .serve r rest) : rest.length < b.length :=
  Request.front?_lt (front?_of_serve h)

/-- A request that is served would be served with any bytes after it. -/
theorem serve_append (h : ofBuffer limit b = .serve r rest) (t : Bytes) :
    ofBuffer limit (b ++ t) = .serve r (rest ++ t) := by
  obtain ⟨head, afterHead, framing, body, hp, hf, hd, hr⟩ := ofBuffer_eq_serve_iff.1 h
  refine ofBuffer_eq_serve_iff.2 ⟨head, afterHead ++ t, framing, body, Request.parse_append hp t, hf, ?_, hr⟩
  have hlen : (b ++ t).length - (afterHead ++ t).length = b.length - afterHead.length := by
    simp only [List.length_append]; omega
  rw [hlen]
  exact Framing.decode_append hd t

/-- What is refused before there are more bytes than allowed would be refused with any bytes after it. -/
theorem refuse_append (hle : b.length ≤ limit) (h : ofBuffer limit b = .refuse status reason) (t : Bytes) :
    ofBuffer limit (b ++ t) = .refuse status reason := by
  have hwait := unfinished_of_le hle
  have hne : (b ++ t).isEmpty = false := by
    cases b with
    | nil => cases h
    | cons => rfl
  unfold ofBuffer at h ⊢
  rw [hne]
  split at h
  · cases h
  · split at h
    · rw [hwait] at h; cases h
    · next e hp =>
      rw [Request.parse_malformed_append hp t]
      exact h
    · next head afterHead hp =>
      have hlt := Request.parse_lt hp
      simp only [Bool.false_eq_true, if_false, Request.parse_append hp t]
      split at h
      · exact h
      · exact h
      · next framing hc hf =>
        -- only a flaw of the body is left, and that shows in what is there
        have hlen : (b ++ t).length - (afterHead ++ t).length = b.length - afterHead.length := by
          simp only [List.length_append]; omega
        unfold ofBody at h ⊢
        rw [hlen]
        split at h
        · cases h
        · rw [hwait] at h; cases h
        · next hd => rw [Framing.decode_error_append (by omega) hd t]; exact h
        · next e hn hd =>
          rw [Framing.decode_error_append (by omega) hd t]
          cases e with
          | tooLarge n => exact absurd rfl (hn n)
          | _ => exact h

/-- While the first request of a stream is not served not all of it is there. -/
theorem incomplete_of_not_serve (hn : ∀ r' rest', ofBuffer limit b ≠ .serve r' rest')
    (h : Request.front? (b ++ t) = some (r, rest)) (hle : (b ++ t).length - rest.length ≤ limit) :
    rest.length ≤ t.length := by
  obtain ⟨head, afterHead, framing, body, hp, hf, hd, -⟩ := Request.front?_eq_some_iff.1 h
  have hrest := (Framing.decode_suffix hd).length_le
  cases hb : Request.parse b with
  | error e =>
    cases e with
    | incomplete => exact Nat.le_trans hrest (Request.parse_completed hb hp)
    | malformed e => rw [Request.parse_malformed_append hb t] at hp; cases hp
  | ok p =>
    obtain ⟨head', afterHead'⟩ := p
    rw [Request.parse_append hb t] at hp
    cases hp
    have hlt := Request.parse_lt hb
    have hbody : ∀ p, framing.decode (limit - (b.length - afterHead'.length)) afterHead' ≠ .ok (some p) := fun p hp =>
      hn _ _ (ofBuffer_eq_serve_iff.2 ⟨head, afterHead', framing, p.1, hb, hf, hp, rfl⟩)
    refine Framing.decode_completed hbody hd ?_
    simp only [List.length_append] at hle hrest ⊢; omega

/-! ## Decisions on a stream that fits -/

theorem fits_of_serve (hs : Request.Fits limit (b ++ t)) (h : ofBuffer limit b = .serve r rest) :
    Request.Fits limit (rest ++ t) :=
  hs.later (front?_of_serve (serve_append h t))

/-- A buffer is no larger than the limit while nothing of it is served. -/
theorem length_le_of_fits (hs : Request.Fits limit (b ++ t)) (hn : ∀ r rest, ofBuffer limit b ≠ .serve r rest) :
    b.length ≤ limit := by
  cases hs with
  | request front size _ =>
    have hle := incomplete_of_not_serve hn front size
    rw [List.length_append] at size
    omega
  | remainder _ size => rw [List.length_append] at size; omega

/-- What is refused is refused with all bytes of the stream, too. -/
theorem refuse_of_fits (hs : Request.Fits limit (b ++ t)) (h : ofBuffer limit b = .refuse status reason) :
    ofBuffer limit (b ++ t) = .refuse status reason :=
  refuse_append (length_le_of_fits hs fun _ _ hn => by rw [h] at hn; cases hn) h t

end Admission

end Hypertext
