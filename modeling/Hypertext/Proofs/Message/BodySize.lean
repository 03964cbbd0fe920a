/-
The size of bodies. What is taken off a buffer for a body, the size lines, the data and the trailers of chunks included,
is no more than the limit; only the empty line after chunks is not counted. While a body arrives that line counts like
any other byte, so that of the bodies that are found when all of it is there some are refused when they come one byte
at a time.
-/
import Hypertext.Proofs.Message.ChunkedGrammar

namespace Hypertext

namespace Chunked

/-! ## Chunks -/

variable {total limit : Nat} {s rest body : Bytes} {e : BodyError}

theorem unfinished_eq_error (h : unfinished total limit = .error e) : e = .tooLarge limit := by
  unfold unfinished at h
  split at h
  · cases h
    rfl
  · cases h

/-- Trailers have no flaw but their size. -/
theorem trailers_eq_error {lineStart : Bool} (h : trailers total limit lineStart s = .error e) :
    e = .tooLarge limit := by
  fun_induction trailers total limit lineStart s with
  | case1 => cases h; rfl
  | case2 => cases h
  | case3 b r _ _ ih => exact ih h
  | case4 => exact unfinished_eq_error h
  | case5 r ih => exact ih h
  | case6 b r _ ih => exact ih h
  | case7 => exact unfinished_eq_error h

theorem unfinished_eq_none (h : unfinished total limit = .ok none) : total ≤ limit := by
  unfold unfinished at h
  split at h
  · cases h
  · omega

/-- More is waited for only while all that is there is within the limit. -/
theorem trailers_eq_none {lineStart : Bool} (h : trailers total limit lineStart s = .ok none) : total ≤ limit := by
  fun_induction trailers total limit lineStart s with
  | case1 => cases h
  | case2 => cases h
  | case3 b r _ _ ih => exact ih h
  | case4 => exact unfinished_eq_none h
  | case5 r ih => exact ih h
  | case6 b r _ ih => exact ih h
  | case7 => exact unfinished_eq_none h

theorem prepend_eq_none_iff {d : Decoded} {data : Bytes} :
    d.map (·.map fun p => (data ++ p.1, p.2)) = .ok none ↔ d = .ok none := by
  rcases d with e' | _ | _ <;> simp [Except.map]

theorem chunks_eq_none {s : Bytes} (h : chunks total limit s = .ok none) : total ≤ limit := by
  cases hs : sizeLine s with
  | bad u =>
    rw [chunks_of_bad hs] at h
    cases h
  | more =>
    rw [chunks_of_more hs] at h
    exact unfinished_eq_none h
  | done size r =>
    have hr := (sizeLine_incremental.suffix hs).length_le
    by_cases hz : size = 0
    · subst hz
      rw [chunks_of_last hs] at h
      exact trailers_eq_none h
    · rw [chunks_of_chunk hz hs] at h
      split_ifs at h with h1 h2 h3
      · exact unfinished_eq_none h
      · exact chunks_eq_none (prepend_eq_none_iff.1 h)
termination_by s.length
decreasing_by simp; omega

theorem chunks_eq_error {s : Bytes} (h : chunks total limit s = .error e) :
    e = .invalidChunk ∨ e = .tooLarge limit := by
  cases hs : sizeLine s with
  | bad u =>
    rw [chunks_of_bad hs] at h
    cases h
    exact .inl rfl
  | more =>
    rw [chunks_of_more hs] at h
    exact .inr (unfinished_eq_error h)
  | done size r =>
    have hr := (sizeLine_incremental.suffix hs).length_le
    by_cases hz : size = 0
    · subst hz
      rw [chunks_of_last hs] at h
      exact .inr (trailers_eq_error h)
    · rw [chunks_of_chunk hz hs] at h
      split_ifs at h with h1 h2 h3
      · cases h
        exact .inr rfl
      · exact .inr (unfinished_eq_error h)
      · cases h
        exact .inl rfl
      · exact chunks_eq_error (prepend_eq_error_iff.1 h)
termination_by s.length
decreasing_by simp; omega

/-- Chunks that are malformed stay so, whatever follows and whatever the limit is. -/
theorem chunks_flaw_append {limit' : Nat} {s : Bytes} (h : chunks total limit s = .error e)
    (he : ∀ n, e ≠ .tooLarge n) (t : Bytes) (p : Bytes × Bytes) :
    chunks (total + t.length) limit' (s ++ t) ≠ .ok (some p) := by
  obtain ⟨body, rest⟩ := p
  intro h'
  cases hs : sizeLine s with
  | bad u =>
    rw [chunks_of_bad (sizeLine_incremental.bad hs t)] at h'
    cases h'
  | more =>
    rw [chunks_of_more hs] at h
    exact he _ (unfinished_eq_error h)
  | done size r =>
    have hr := (sizeLine_incremental.suffix hs).length_le
    by_cases hz : size = 0
    · subst hz
      rw [chunks_of_last hs] at h
      exact he _ (trailers_eq_error h)
    · rw [chunks_of_chunk hz hs] at h
      rw [chunks_of_chunk hz (sizeLine_incremental.done hs t)] at h'
      split_ifs at h with h1 h2 h3
      · cases h
        exact he _ rfl
      · exact he _ (unfinished_eq_error h)
      all_goals
        rw [List.length_append, Nat.add_sub_add_right, List.drop_append_of_le_length (by omega),
          List.take_append_of_le_length (by simp; omega)] at h'
        split_ifs at h' with h4 h5
      · exact unfinished_ne_some _ _ _ h'
      · exact unfinished_ne_some _ _ _ h'
      · rw [List.drop_append_of_le_length (by omega)] at h'
        obtain ⟨b, hb, -⟩ := prepend_eq_some_iff.1 h'
        exact chunks_flaw_append (prepend_eq_error_iff.1 h) he t _ hb
termination_by s.length
decreasing_by simp; omega

end Chunked

namespace Framing

/-! ## Bodies -/

/-- How many bytes of a body the limit does not count: those of the empty line after chunks. -/
def uncounted : Framing → Nat
  | .chunked => 2
  | _ => 0

variable {f : Framing} {limit : Nat} {s body rest : Bytes}

/-- What is taken for a body is no larger than the limit allows. -/
theorem decode_within (h : f.decode limit s = .ok (some (body, rest))) :
    s.length - rest.length ≤ limit + f.uncounted := by
  cases f with
  | empty =>
    cases h
    omega
  | length n =>
    obtain ⟨hle, -, -, rfl⟩ := decode_length_eq_some_iff.1 h
    rw [List.length_drop]
    exact Nat.le_trans (by omega) (Nat.le_add_right _ _)
  | chunked =>
    obtain ⟨w, rfl, rfl, hsize⟩ := decode_chunked_iff.1 h
    rw [List.length_append, uncounted]
    omega
  | untilClose => exact absurd h (decode_untilClose_ne_some _)

/-- A body that takes bytes is no larger than the limit allows. -/
theorem decode_size (hempty : f ≠ .empty) (hzero : f ≠ .length 0) (h : f.decode limit s = .ok (some (body, rest))) :
    0 < limit ∧ s.length - rest.length ≤ limit + f.uncounted := by
  refine ⟨?_, decode_within h⟩
  cases f with
  | empty => exact absurd rfl hempty
  | length n =>
    have hle := (decode_length_eq_some_iff.1 h).1
    have hpos : n ≠ 0 := fun hn => hzero (congrArg length hn)
    omega
  | chunked =>
    obtain ⟨w, -, -, hsize⟩ := decode_chunked_iff.1 h
    have hlen := w.four_le_length
    omega
  | untilClose => exact absurd h (decode_untilClose_ne_some _)

/-- A body that is malformed stays so, whatever follows and whatever the limit is. -/
theorem decode_flaw_append {limit' : Nat} {e : BodyError} (h : f.decode limit s = .error e)
    (he : ∀ n, e ≠ .tooLarge n) (t : Bytes) (p : Bytes × Bytes) : f.decode limit' (s ++ t) ≠ .ok (some p) := by
  cases f with
  | empty => cases h
  | length n =>
    simp only [decode] at h
    split_ifs at h
    cases h
    exact absurd rfl (he _)
  | chunked =>
    simp only [decode, Chunked.decode, List.length_append] at h ⊢
    exact Chunked.chunks_flaw_append h he t p
  | untilClose => exact decode_untilClose_ne_some _

/-! ## Bodies that arrive -/

/-- More is waited for only while all that is there is within the limit. -/
theorem decode_eq_none (h : f.decode limit s = .ok none) : s.length ≤ limit := by
  cases f with
  | empty => cases h
  | length n =>
    simp only [decode] at h
    split_ifs at h with h1 h2
    · omega
    · cases h
  | chunked => exact Chunked.chunks_eq_none h
  | untilClose =>
    simp only [decode] at h
    split_ifs at h with h1
    omega

theorem decode_eq_error {e : BodyError} (h : f.decode limit s = .error e) :
    e = .invalidChunk ∨ e = .tooLarge limit := by
  cases f with
  | empty => cases h
  | length n =>
    simp only [decode] at h
    split_ifs at h
    cases h
    exact .inr rfl
  | chunked => exact Chunked.chunks_eq_error h
  | untilClose =>
    simp only [decode] at h
    split_ifs at h
    cases h
    exact .inr rfl

/-- A beginning of a body is waited on, or refused for its size. -/
theorem decode_beginning {t : Bytes} (h : f.decode limit (s ++ t) = .ok (some (body, rest)))
    (hshort : rest.length < t.length) :
    f.decode limit s = if s.length ≤ limit then .ok none else .error (.tooLarge limit) := by
  rcases hd : f.decode limit s with e | _ | ⟨b, r⟩
  · rcases decode_eq_error hd with rfl | rfl
    · exact absurd h (decode_flaw_append hd (by simp) t _)
    · have hbig : ¬ s.length ≤ limit := by
        intro hle
        rw [decode_error_append hle hd t] at h
        cases h
      rw [if_neg hbig]
  · rw [if_pos (decode_eq_none hd)]
  · rw [decode_append hd t] at h
    cases h
    simp only [List.length_append] at hshort
    omega

/-- A body that ends within the bytes that are there is found in them. -/
theorem decode_whole {t : Bytes} (h : f.decode limit (s ++ t) = .ok (some (body, rest)))
    (hlong : t.length ≤ rest.length) : ∃ r, rest = r ++ t ∧ f.decode limit s = .ok (some (body, r)) := by
  obtain ⟨r, rfl⟩ := List.suffix_of_suffix_length_le (List.suffix_append s t) (decode_suffix h) hlong
  refine ⟨r, rfl, ?_⟩
  cases f with
  | empty =>
    simp only [decode, Except.ok.injEq, Option.some.injEq, Prod.mk.injEq] at h
    obtain ⟨rfl, hs⟩ := h
    rw [List.append_cancel_right hs, decode]
  | length n =>
    obtain ⟨hle, hlen, rfl, hdrop⟩ := decode_length_eq_some_iff.1 h
    have hn : n ≤ s.length := by
      have := congrArg List.length hdrop
      simp only [List.length_drop, List.length_append] at this hlen
      omega
    rw [List.drop_append_of_le_length hn] at hdrop
    exact decode_length_eq_some_iff.2
      ⟨hle, hn, (List.take_append_of_le_length hn).symm, List.append_cancel_right hdrop⟩
  | chunked =>
    obtain ⟨w, hw, rfl, hsize⟩ := decode_chunked_iff.1 h
    rw [← List.append_assoc] at hw
    exact decode_chunked_iff.2 ⟨w, List.append_cancel_right hw, rfl, hsize⟩
  | untilClose => exact absurd h (decode_untilClose_ne_some _)

/-- Bytes arrive one at a time, and the body is tried for after each of them until it is found or refused: what was
found, and all bytes that are left. -/
def takeArriving (f : Framing) (limit : Nat) : (held coming : Bytes) → Except BodyError (Option Bytes) × Bytes
  | held, [] => (.ok none, held)
  | held, b :: coming =>
    match f.take limit (held ++ [b]) with
    | (.ok none, held) => takeArriving f limit held coming
    | (found, held) => (found, held ++ coming)

/-- A body that would be found is found as it arrives, if it is at most one byte larger than the limit, and is refused
otherwise. -/
theorem takeArriving_of_decode : ∀ {coming held : Bytes}, held.length ≤ limit → coming ≠ [] →
    f.decode limit (held ++ coming) = .ok (some (body, rest)) → rest.length ≤ coming.length →
    f.takeArriving limit held coming =
      if held.length + coming.length ≤ rest.length + limit + 1 then (.ok (some body), rest)
      else (.error (.tooLarge limit), held ++ coming)
  | [], held, _, hne, _, _ => absurd rfl hne
  | b :: coming, held, hheld, _, h, hrest => by
    have hsplit : held ++ b :: coming = (held ++ [b]) ++ coming := by simp
    rw [hsplit] at h
    rcases Nat.lt_or_ge rest.length coming.length with hlt | hge
    · have hd := decode_beginning h hlt
      by_cases hle : held.length + 1 ≤ limit
      · rw [if_pos (by simpa using hle)] at hd
        have hcoming : coming ≠ [] := by
          rintro rfl
          simp at hlt
        have ih := takeArriving_of_decode (by simpa using hle) hcoming h (Nat.le_of_lt hlt)
        rw [takeArriving, take_of_none hd]
        simp only [ih, List.length_append, List.length_cons, List.length_nil, hsplit]
        rw [Nat.add_assoc held.length, Nat.add_comm 1]
      · rw [if_neg (by simpa using hle)] at hd
        rw [takeArriving, take_of_error hd, if_neg (by simp; omega)]
        simp
    · obtain ⟨r, rfl, hd⟩ := decode_whole h hge
      rw [takeArriving, take_eq_some_iff.2 hd, if_pos (by simp; omega)]

/-- What is taken for a body is no larger than the limit allows, the last empty line of chunks not counted. When the
same bytes arrive one at a time a body that is more than one byte larger than the limit is refused, and any other is
taken. -/
theorem taken_within_limit (h : f.take limit s = (.ok (some body), rest)) :
    rest <:+ s ∧ s.length - rest.length ≤ limit + f.uncounted ∧
    (s ≠ [] → f.takeArriving limit [] s =
      if s.length - rest.length ≤ limit + 1 then (.ok (some body), rest) else (.error (.tooLarge limit), s)) := by
  rw [take_eq_some_iff] at h
  have hsuffix := decode_suffix h
  have hle := hsuffix.length_le
  refine ⟨hsuffix, decode_within h, fun hs => ?_⟩
  rw [takeArriving_of_decode (Nat.zero_le _) hs h hle]
  by_cases hsize : s.length - rest.length ≤ limit + 1
  · rw [if_pos hsize, if_pos (by simp only [List.length_nil]; omega)]
  · rw [if_neg hsize, if_neg (by simp only [List.length_nil]; omega), List.nil_append]

/-- A chunk and the last size line fill the limit, and the empty line comes on top of that. -/
theorem taken_within_limit_of_chunk :
    let s := Bytes.ofText "1\r\na\r\n0\r\n\r\nGET"
    chunked.take 9 s = (.ok (some (Bytes.ofText "a")), Bytes.ofText "GET") ∧ s.length - 3 ≤ 9 + chunked.uncounted ∧
    chunked.takeArriving 9 [] s = (.error (.tooLarge 9), s) := by
  intro s
  let one : Chunked.SizeLine := ⟨Bytes.ofText "1", [], none, List.forall_mem_singleton.2 rfl, by decide,
    List.forall_mem_nil _, by decide⟩
  let last : Chunked.SizeLine := ⟨Bytes.ofText "0", [], none, List.forall_mem_singleton.2 rfl, by decide,
    List.forall_mem_nil _, by decide⟩
  let w : Chunked.Wire := ⟨[⟨one, Bytes.ofText "a", by decide, by decide⟩], last, by decide, []⟩
  have htake : chunked.take 9 s = (.ok (some (Bytes.ofText "a")), Bytes.ofText "GET") :=
    take_eq_some_iff.2 (decode_chunked_iff.2 ⟨w, by decide, by decide, by decide⟩)
  obtain ⟨-, hsize, harriving⟩ := taken_within_limit htake
  exact ⟨htake, hsize, harriving (by decide)⟩

/-- With a limit of three bytes the smallest chunked body, of five bytes, is taken when all of it is there, and is
refused when it comes one byte at a time. -/
theorem taken_beyond_limit :
    let s := Bytes.ofText "0\r\n\r\n"
    chunked.take 3 s = (.ok (some []), []) ∧ ¬ s.length ≤ 3 ∧
    (chunked.takeArriving 3 [] s).1 = .error (.tooLarge 3) := by
  intro s
  have hd : chunked.decode 3 s = .ok (some ([], [])) := by
    rw [decode, Chunked.decode, Chunked.chunks_of_last rfl]
    rfl
  refine ⟨take_eq_some_iff.2 hd, by decide, ?_⟩
  rw [takeArriving_of_decode (Nat.zero_le _) (by decide) hd (Nat.zero_le _)]
  rfl

end Framing

end Hypertext
