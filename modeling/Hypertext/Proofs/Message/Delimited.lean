/-
Bodies that arrive in pieces. A body that has been found is also found when more bytes follow, and the same bytes
are left; so is a flaw, as long as the bytes are no more than the limit allows. A limit only matters for bodies that
are longer, and a body that was not found at first ends no earlier than the bytes that were there.
-/
import Hypertext.Message.Body
import Hypertext.Proofs.Message.Incremental
import Mathlib.Tactic.SplitIfs

namespace Hypertext

namespace Chunked

theorem unfinished_ne_some (total limit : Nat) (p : Bytes × Bytes) : unfinished total limit ≠ .ok (some p) := by
  unfold unfinished
  split <;> simp

theorem unfinished_ne_error {total limit : Nat} (h : total ≤ limit) (e : BodyError) :
    unfinished total limit ≠ .error e := by
  rw [unfinished, if_neg (by omega)]
  simp

/-! ## Trailers -/

theorem trailers_suffix {total limit : Nat} {lineStart : Bool} {s body rest : Bytes}
    (h : trailers total limit lineStart s = .ok (some (body, rest))) : rest <:+ s := by
  fun_induction trailers total limit lineStart s with
  | case1 => cases h
  | case2 r _ => cases h; exact (List.suffix_cons _ _).trans (List.suffix_cons _ _)
  | case3 b r _ _ ih => exact (ih h).trans (List.suffix_cons _ _)
  | case4 => exact absurd h (unfinished_ne_some _ _ _)
  | case5 r ih => exact (ih h).trans ((List.suffix_cons _ _).trans (List.suffix_cons _ _))
  | case6 b r _ ih => exact (ih h).trans (List.suffix_cons _ _)
  | case7 => exact absurd h (unfinished_ne_some _ _ _)

theorem trailers_lt {total limit : Nat} {lineStart : Bool} {s body rest : Bytes}
    (h : trailers total limit lineStart s = .ok (some (body, rest))) : rest.length < s.length := by
  fun_induction trailers total limit lineStart s with
  | case1 => cases h
  | case2 r _ => cases h; simp only [List.length_cons]; omega
  | case3 b r _ _ ih => exact Nat.lt_succ_of_lt (ih h)
  | case4 => exact absurd h (unfinished_ne_some _ _ _)
  | case5 r ih => exact Nat.lt_succ_of_lt (Nat.lt_succ_of_lt (ih h))
  | case6 b r _ ih => exact Nat.lt_succ_of_lt (ih h)
  | case7 => exact absurd h (unfinished_ne_some _ _ _)

/-- All before the start of a line is within the limit. -/
theorem trailers_start {total limit : Nat} {s : Bytes} {p : Bytes × Bytes}
    (h : trailers total limit true s = .ok (some p)) :
    total - s.length ≤ limit := by
  rcases Nat.lt_or_ge limit (total - s.length) with hlt | hle
  · unfold trailers at h
    rw [if_pos hlt] at h
    cases h
  · exact hle

/-- Lines are not refused before there are more bytes than allowed. -/
theorem trailers_ne_error {total limit : Nat} (hle : total ≤ limit) (lineStart : Bool) (s : Bytes) (e : BodyError) :
    trailers total limit lineStart s ≠ .error e := by
  fun_induction trailers total limit lineStart s with
  | case1 => omega
  | case2 => simp
  | case3 b r _ _ ih => exact ih
  | case4 => exact unfinished_ne_error hle e
  | case5 r ih => exact ih
  | case6 b r _ ih => exact ih
  | case7 => exact unfinished_ne_error hle e

/-- A byte that does not begin the end of a line still does not when more bytes follow those that come after it. -/
theorem not_crlf_append {b : UInt8} {r : Bytes} (hne : r ≠ []) (h : ∀ x, b = 13 → r = 10 :: x → False) (t : Bytes) :
    ∀ x, b = 13 → r ++ t = 10 :: x → False := by
  intro x hb hx
  rcases r with _ | ⟨c, r⟩
  · exact hne rfl
  · cases hx; exact h r hb rfl

theorem ne_nil_of_trailers {total limit : Nat} {s : Bytes} {p : Bytes × Bytes}
    (h : trailers total limit false s = .ok (some p)) : s ≠ [] := by
  rintro rfl
  exact unfinished_ne_some _ _ _ (by rwa [trailers] at h)

theorem trailers_append {total limit : Nat} {lineStart : Bool} {s body rest : Bytes}
    (h : trailers total limit lineStart s = .ok (some (body, rest))) (t : Bytes) :
    trailers (total + t.length) limit lineStart (s ++ t) = .ok (some (body, rest ++ t)) := by
  fun_induction trailers total limit lineStart s with
  | case1 => cases h
  | case2 r hle =>
    cases h
    rw [List.cons_append, List.cons_append, trailers, if_neg (by simp at hle ⊢; omega)]
  | case3 b r hne hle ih =>
    rw [List.cons_append, trailers, if_neg (by simp at hle ⊢; omega)]
    · exact ih h
    · exact not_crlf_append (ne_nil_of_trailers h) hne t
  | case4 => exact absurd h (unfinished_ne_some _ _ _)
  | case5 r ih =>
    rw [List.cons_append, List.cons_append, trailers]
    exact ih h
  | case6 b r hne ih =>
    rw [List.cons_append, trailers]
    · exact ih h
    · exact not_crlf_append (ne_nil_of_trailers h) hne t
  | case7 => exact absurd h (unfinished_ne_some _ _ _)

/-- Any limit that is not smaller than what is taken will do. -/
theorem trailers_limit {total limit limit' : Nat} {lineStart : Bool} {s body rest : Bytes}
    (h : trailers total limit lineStart s = .ok (some (body, rest))) (hle : total - rest.length ≤ limit') :
    trailers total limit' lineStart s = .ok (some (body, rest)) := by
  have hlen := (trailers_suffix h).length_le
  fun_induction trailers total limit lineStart s with
  | case1 => cases h
  | case2 r _ =>
    cases h
    rw [trailers, if_neg (by omega)]
  | case3 b r hne _ ih =>
    rw [trailers, if_neg (by omega)]
    · exact ih h (trailers_suffix h).length_le
    · exact hne
  | case4 => exact absurd h (unfinished_ne_some _ _ _)
  | case5 r ih =>
    rw [trailers]
    exact ih h (trailers_suffix h).length_le
  | case6 b r hne ih =>
    rw [trailers]
    · exact ih h (trailers_suffix h).length_le
    · exact hne
  | case7 => exact absurd h (unfinished_ne_some _ _ _)

/-- Lines that were not complete end no earlier than the bytes that were there. -/
theorem trailers_completed {total limit limit' : Nat} {lineStart : Bool} {s t body rest : Bytes}
    (h : ∀ p, trailers total limit lineStart s ≠ .ok (some p))
    (h' : trailers (total + t.length) limit' lineStart (s ++ t) = .ok (some (body, rest)))
    (hle : total + t.length - rest.length ≤ limit) : rest.length ≤ t.length := by
  have hlen := (trailers_suffix h').length_le
  rw [List.length_append] at hlen
  fun_induction trailers total limit lineStart s with
  | case1 => omega
  | case2 r _ => exact absurd rfl (h _)
  | case3 b r hne _ ih =>
    by_cases hr : r = []
    · have := trailers_lt h'
      simp only [hr, List.length_append, List.length_cons, List.length_nil] at this
      omega
    · rw [List.cons_append, trailers] at h'
      · split at h'
        · cases h'
        · exact ih h h' (by simpa using (trailers_suffix h').length_le)
      · exact not_crlf_append hr hne t
  | case4 => simpa using hlen
  | case5 r ih =>
    rw [List.cons_append, List.cons_append, trailers] at h'
    exact ih h h' (by simpa using (trailers_suffix h').length_le)
  | case6 b r hne ih =>
    by_cases hr : r = []
    · have := trailers_lt h'
      simp only [hr, List.length_append, List.length_cons, List.length_nil] at this
      omega
    · rw [List.cons_append, trailers] at h'
      · exact ih h h' (by simpa using (trailers_suffix h').length_le)
      · exact not_crlf_append hr hne t
  | case7 => simpa using hlen

/-! ## Chunks -/

section Equations

variable {total limit : Nat} {s rest : Bytes}

/-- One step, whatever the size line says. -/
theorem chunks_eq (total limit : Nat) (s : Bytes) :
    chunks total limit s =
      match sizeLine s with
      | .bad _ => .error .invalidChunk
      | .more => unfinished total limit
      | .done 0 rest => trailers total limit true rest
      | .done size rest =>
        if limit < total - rest.length + size then .error (.tooLarge limit)
        else if rest.length < size + 2 then unfinished total limit
        else if (rest.drop size).take 2 != Bytes.crlf then .error .invalidChunk
        else (chunks total limit (rest.drop (size + 2))).map (·.map fun p => (rest.take size ++ p.1, p.2)) := by
  rw [chunks]
  split <;> simp_all

theorem chunks_of_bad (h : sizeLine s = .bad ()) : chunks total limit s = .error .invalidChunk := by
  rw [chunks_eq, h]

theorem chunks_of_more (h : sizeLine s = .more) : chunks total limit s = unfinished total limit := by
  rw [chunks_eq, h]

theorem chunks_of_last (h : sizeLine s = .done 0 rest) : chunks total limit s = trailers total limit true rest := by
  rw [chunks_eq, h]
  rfl

/-- What a chunk of a size that is not zero comes to. -/
theorem chunks_of_chunk {size : Nat} (hz : size ≠ 0) (h : sizeLine s = .done size rest) :
    chunks total limit s =
      if limit < total - rest.length + size then .error (.tooLarge limit)
      else if rest.length < size + 2 then unfinished total limit
      else if (rest.drop size).take 2 != Bytes.crlf then .error .invalidChunk
      else (chunks total limit (rest.drop (size + 2))).map (·.map fun p => (rest.take size ++ p.1, p.2)) := by
  obtain ⟨n, rfl⟩ := Nat.exists_eq_succ_of_ne_zero hz
  rw [chunks_eq, h]
  rfl

end Equations

theorem prepend_eq_some_iff {d : Decoded} {data body rest : Bytes} :
    d.map (·.map fun p => (data ++ p.1, p.2)) = .ok (some (body, rest)) ↔
      ∃ b, d = .ok (some (b, rest)) ∧ data ++ b = body := by
  rcases d with e | _ | ⟨b, r⟩
  · simp [Except.map]
  · simp [Except.map]
  · simp only [Except.map, Option.map_some, Except.ok.injEq, Option.some.injEq, Prod.mk.injEq]
    constructor
    · rintro ⟨rfl, rfl⟩; exact ⟨b, ⟨rfl, rfl⟩, rfl⟩
    · rintro ⟨b', ⟨rfl, rfl⟩, rfl⟩; exact ⟨rfl, rfl⟩

theorem prepend_eq_error_iff {d : Decoded} {data : Bytes} {e : BodyError} :
    d.map (·.map fun p => (data ++ p.1, p.2)) = .error e ↔ d = .error e := by
  rcases d with e' | _ <;> simp [Except.map]

/-- A whole body begins with the last size line or with a chunk that is complete and within the limit. -/
theorem chunks_eq_some_iff {total limit : Nat} {s body rest : Bytes} :
    chunks total limit s = .ok (some (body, rest)) ↔
      (∃ r, sizeLine s = .done 0 r ∧ trailers total limit true r = .ok (some (body, rest))) ∨
      ∃ size r b, size ≠ 0 ∧ sizeLine s = .done size r ∧ total - r.length + size ≤ limit ∧ size + 2 ≤ r.length ∧
        (r.drop size).take 2 = Bytes.crlf ∧ chunks total limit (r.drop (size + 2)) = .ok (some (b, rest)) ∧
        r.take size ++ b = body := by
  constructor
  · intro h
    cases hs : sizeLine s with
    | bad e => rw [chunks_of_bad hs] at h; cases h
    | more => rw [chunks_of_more hs] at h; exact absurd h (unfinished_ne_some _ _ _)
    | done size r =>
      by_cases hz : size = 0
      · subst hz
        rw [chunks_of_last hs] at h
        exact .inl ⟨r, rfl, h⟩
      · rw [chunks_of_chunk hz hs] at h
        split_ifs at h with h1 h2 h3
        · exact absurd h (unfinished_ne_some _ _ _)
        · obtain ⟨b, hb, hbody⟩ := prepend_eq_some_iff.1 h
          exact .inr ⟨size, r, b, hz, rfl, by omega, by omega, by simpa using h3, hb, hbody⟩
  · rintro (⟨r, hs, h⟩ | ⟨size, r, b, hz, hs, h1, h2, h3, h4, h5⟩)
    · rw [chunks_of_last hs, h]
    · rw [chunks_of_chunk hz hs, if_neg (by omega), if_neg (by omega), if_neg (by simp [h3])]
      exact prepend_eq_some_iff.2 ⟨b, h4, h5⟩

theorem chunks_suffix {total limit : Nat} {s body rest : Bytes}
    (h : chunks total limit s = .ok (some (body, rest))) : rest <:+ s := by
  rcases chunks_eq_some_iff.1 h with ⟨r, hs, hr⟩ | ⟨size, r, b, hz, hs, -, hlen, -, hb, -⟩
  · exact (trailers_suffix hr).trans (sizeLine_incremental.suffix hs)
  · have := (sizeLine_incremental.suffix hs).length_le
    exact ((chunks_suffix hb).trans (List.drop_suffix _ _)).trans (sizeLine_incremental.suffix hs)
termination_by s.length
decreasing_by simp; omega

theorem chunks_append {total limit : Nat} {s body rest : Bytes}
    (h : chunks total limit s = .ok (some (body, rest))) (t : Bytes) :
    chunks (total + t.length) limit (s ++ t) = .ok (some (body, rest ++ t)) := by
  refine chunks_eq_some_iff.2 ?_
  rcases chunks_eq_some_iff.1 h with ⟨r, hs, htr⟩ | ⟨size, r, b, hz, hs, hlim, hlen, hend, hb, rfl⟩
  · exact .inl ⟨r ++ t, sizeLine_incremental.done hs t, trailers_append htr t⟩
  · have hr := (sizeLine_incremental.suffix hs).length_le
    refine .inr ⟨size, r ++ t, b, hz, sizeLine_incremental.done hs t, ?_, ?_, ?_, ?_, ?_⟩
    · rw [List.length_append]; omega
    · rw [List.length_append]; omega
    · rw [List.drop_append_of_le_length (by omega), List.take_append_of_le_length (by simp; omega), hend]
    · rw [List.drop_append_of_le_length hlen]
      exact chunks_append hb t
    · rw [List.take_append_of_le_length (by omega)]
termination_by s.length
decreasing_by simp; omega

/-- A flaw that is found before there are more bytes than allowed stays one. -/
theorem chunks_error_append {total limit : Nat} {s : Bytes} {e : BodyError} (hle : total ≤ limit)
    (h : chunks total limit s = .error e) (t : Bytes) :
    chunks (total + t.length) limit (s ++ t) = .error e := by
  cases hs : sizeLine s with
  | bad u =>
    rw [chunks_of_bad hs] at h
    rw [chunks_of_bad (sizeLine_incremental.bad hs t), h]
  | more =>
    rw [chunks_of_more hs] at h
    exact absurd h (unfinished_ne_error hle e)
  | done size r =>
    have hr := (sizeLine_incremental.suffix hs).length_le
    by_cases hz : size = 0
    · subst hz
      rw [chunks_of_last hs] at h
      exact absurd h (trailers_ne_error hle _ _ _)
    · rw [chunks_of_chunk hz hs] at h
      rw [chunks_of_chunk hz (sizeLine_incremental.done hs t), List.length_append, Nat.add_sub_add_right]
      split_ifs at h with h1 h2 h3
      · rw [if_pos h1, h]
      · exact absurd h (unfinished_ne_error hle e)
      · rw [if_neg h1, if_neg (by omega), List.drop_append_of_le_length (by omega),
          List.take_append_of_le_length (by simp; omega), if_pos h3, h]
      · rw [if_neg h1, if_neg (by omega), List.drop_append_of_le_length (by omega),
          List.take_append_of_le_length (by simp; omega), if_neg h3, List.drop_append_of_le_length (by omega)]
        exact prepend_eq_error_iff.2 (chunks_error_append hle (prepend_eq_error_iff.1 h) t)
termination_by s.length
decreasing_by simp; omega

/-- Any limit that is not smaller than what is taken will do. -/
theorem chunks_limit {total limit limit' : Nat} {s body rest : Bytes} (htotal : s.length ≤ total)
    (h : chunks total limit s = .ok (some (body, rest))) (hle : total - rest.length ≤ limit') :
    chunks total limit' s = .ok (some (body, rest)) := by
  refine chunks_eq_some_iff.2 ?_
  rcases chunks_eq_some_iff.1 h with ⟨r, hs, htr⟩ | ⟨size, r, b, hz, hs, hlim, hlen, hend, hb, rfl⟩
  · exact .inl ⟨r, hs, trailers_limit htr hle⟩
  · have hr := (sizeLine_incremental.suffix hs).length_le
    have hrest := (chunks_suffix hb).length_le
    rw [List.length_drop] at hrest
    exact .inr ⟨size, r, b, hz, hs, by omega, hlen, hend, chunks_limit (by simp; omega) hb hle, rfl⟩
termination_by s.length
decreasing_by simp; omega

/-- Chunks that were not complete end no earlier than the bytes that were there. -/
theorem chunks_completed {total limit limit' : Nat} {s t body rest : Bytes} (htotal : s.length ≤ total)
    (h : ∀ p, chunks total limit s ≠ .ok (some p))
    (h' : chunks (total + t.length) limit' (s ++ t) = .ok (some (body, rest)))
    (hle : total + t.length - rest.length ≤ limit) : rest.length ≤ t.length := by
  cases hs : sizeLine s with
  | bad u => rw [chunks_of_bad (sizeLine_incremental.bad hs t)] at h'; cases h'
  | more =>
    rcases chunks_eq_some_iff.1 h' with ⟨r, hs', h''⟩ | ⟨size, r, b, -, hs', -, -, -, h'', -⟩
    · exact Nat.le_trans (trailers_suffix h'').length_le (sizeLine_incremental.more hs hs')
    · exact Nat.le_trans ((chunks_suffix h'').trans (List.drop_suffix _ _)).length_le
        (sizeLine_incremental.more hs hs')
  | done size r =>
    have hr := (sizeLine_incremental.suffix hs).length_le
    rcases chunks_eq_some_iff.1 h' with ⟨r', hs', h''⟩ | ⟨size', r', b, hz, hs', hlim, hlen, hend, h'', rfl⟩
    · rw [sizeLine_incremental.done hs t] at hs'
      cases hs'
      exact trailers_completed (fun p hp => h p ((chunks_of_last hs).trans hp)) h'' hle
    · rw [sizeLine_incremental.done hs t] at hs'
      cases hs'
      have hrest := (chunks_suffix h'').length_le
      rw [List.length_drop, List.length_append] at hrest
      by_cases hfit : size + 2 ≤ r.length
      · rw [List.drop_append_of_le_length (by omega), List.take_append_of_le_length (by simp; omega)] at hend
        rw [List.drop_append_of_le_length hfit] at h''
        refine chunks_completed (by simp; omega) (fun p hp => ?_) h'' hle
        exact h _ (chunks_eq_some_iff.2 (.inr ⟨size, r, p.1, hz, hs, by omega, hfit, hend, hp, rfl⟩))
      -- the data of the chunk was not there
      · omega
termination_by s.length
decreasing_by simp; omega

end Chunked

namespace Framing

/-! ## Bodies -/

variable {f : Framing} {limit limit' : Nat} {s t body rest : Bytes}

theorem decode_length_eq_some_iff {n : Nat} :
    (length n).decode limit s = .ok (some (body, rest)) ↔
      n ≤ limit ∧ n ≤ s.length ∧ s.take n = body ∧ s.drop n = rest := by
  simp only [decode]
  split_ifs with h1 h2
  · simp only [false_iff]; omega
  · simp only [Except.ok.injEq, reduceCtorEq, false_iff]; omega
  · simp only [Except.ok.injEq, Option.some.injEq, Prod.mk.injEq]
    exact ⟨fun h => ⟨by omega, by omega, h⟩, fun h => h.2.2⟩

/-- A body of a known length is taken off the front of what follows it. -/
theorem decode_ofLength (hle : body.length ≤ limit) (rest : Bytes) :
    (ofLength body.length).decode limit (body ++ rest) = .ok (some (body, rest)) := by
  unfold ofLength
  split
  · next hzero =>
    rw [List.eq_nil_of_length_eq_zero hzero]
    rfl
  · exact decode_length_eq_some_iff.2 ⟨hle, by simp, List.take_left, List.drop_left⟩

theorem decode_untilClose_ne_some (p : Bytes × Bytes) : untilClose.decode limit s ≠ .ok (some p) := by
  simp only [decode]
  split_ifs <;> simp

theorem decode_suffix (h : f.decode limit s = .ok (some (body, rest))) : rest <:+ s := by
  cases f with
  | empty => cases h; exact List.suffix_refl _
  | length n =>
    obtain ⟨-, -, -, rfl⟩ := decode_length_eq_some_iff.1 h
    exact List.drop_suffix _ _
  | chunked => exact Chunked.chunks_suffix h
  | untilClose => exact absurd h (decode_untilClose_ne_some _)

theorem decode_append (h : f.decode limit s = .ok (some (body, rest))) (t : Bytes) :
    f.decode limit (s ++ t) = .ok (some (body, rest ++ t)) := by
  cases f with
  | empty => cases h; rfl
  | length n =>
    obtain ⟨h1, h2, rfl, rfl⟩ := decode_length_eq_some_iff.1 h
    refine decode_length_eq_some_iff.2 ⟨h1, by simp; omega, ?_, ?_⟩
    · rw [List.take_append_of_le_length h2]
    · rw [List.drop_append_of_le_length h2]
  | chunked =>
    simp only [decode, Chunked.decode, List.length_append] at h ⊢
    exact Chunked.chunks_append h t
  | untilClose => exact absurd h (decode_untilClose_ne_some _)

/-- A flaw that is found before there are more bytes than allowed stays one. -/
theorem decode_error_append {e : BodyError} (hle : s.length ≤ limit) (h : f.decode limit s = .error e) (t : Bytes) :
    f.decode limit (s ++ t) = .error e := by
  cases f with
  | empty => cases h
  | length n =>
    simp only [decode] at h ⊢
    split_ifs at h with h1
    rw [if_pos h1, h]
  | chunked =>
    simp only [decode, Chunked.decode, List.length_append] at h ⊢
    exact Chunked.chunks_error_append hle h t
  | untilClose =>
    simp only [decode] at h
    rw [if_neg (by omega)] at h
    cases h

/-- Any limit that is not smaller than what is taken will do. -/
theorem decode_limit (h : f.decode limit s = .ok (some (body, rest))) (hle : s.length - rest.length ≤ limit') :
    f.decode limit' s = .ok (some (body, rest)) := by
  cases f with
  | empty => cases h; rfl
  | length n =>
    obtain ⟨h1, h2, rfl, rfl⟩ := decode_length_eq_some_iff.1 h
    rw [List.length_drop] at hle
    exact decode_length_eq_some_iff.2 ⟨by omega, h2, rfl, rfl⟩
  | chunked => exact Chunked.chunks_limit (Nat.le_refl _) h hle
  | untilClose => exact absurd h (decode_untilClose_ne_some _)

/-- A body that was not complete ends no earlier than the bytes that were there. -/
theorem decode_completed (h : ∀ p, f.decode limit s ≠ .ok (some p))
    (h' : f.decode limit' (s ++ t) = .ok (some (body, rest)))
    (hle : (s ++ t).length - rest.length ≤ limit) : rest.length ≤ t.length := by
  rw [List.length_append] at hle
  cases f with
  | empty => exact absurd rfl (h _)
  | length n =>
    obtain ⟨-, h2, -, rfl⟩ := decode_length_eq_some_iff.1 h'
    rw [List.length_append] at h2
    rw [List.length_drop, List.length_append] at hle ⊢
    have hn : ¬ n ≤ s.length := fun hn => h _ (decode_length_eq_some_iff.2 ⟨by omega, hn, rfl, rfl⟩)
    omega
  | chunked =>
    simp only [decode, Chunked.decode, List.length_append] at h h'
    exact Chunked.chunks_completed (Nat.le_refl _) h h' hle
  | untilClose => exact absurd h' (decode_untilClose_ne_some _)

end Framing

end Hypertext
