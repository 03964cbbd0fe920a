/-
Scanning bytes that arrive in pieces. A scanner is incremental if what it finds stands when more bytes follow: a
piece that was found stays found, an error stays an error, and a beginning is completed only by a piece that takes
all of it. The grammar of message heads is put together from incremental scanners.
-/
import Hypertext.Message.Chunked
import Hypertext.Message.Head

namespace Hypertext

namespace Scanner

variable {ε α β : Type}

/-- What the scanner finds in some bytes it also finds, or at least does not contradict, when more bytes follow. -/
structure Incremental (p : Scanner ε α) : Prop where
  suffix : ∀ {s a rest}, p s = .done a rest → rest <:+ s
  done : ∀ {s a rest}, p s = .done a rest → ∀ t, p (s ++ t) = .done a (rest ++ t)
  bad : ∀ {s e}, p s = .bad e → ∀ t, p (s ++ t) = .bad e
  more : ∀ {s t a rest}, p s = .more → p (s ++ t) = .done a rest → rest.length ≤ t.length

/-- A scanner that takes at least one byte. -/
def Consumes (p : Scanner ε α) : Prop := ∀ s a rest, p s = .done a rest → rest.length < s.length

/-! ## Sequences -/

theorem bind_eq_done {p : Scanner ε α} {f : α → Scanner ε β} {s rest : Bytes} {b : β}
    (h : (p >>= f) s = .done b rest) : ∃ a mid, p s = .done a mid ∧ f a mid = .done b rest := by
  change Scanner.bind p f s = _ at h
  unfold Scanner.bind at h
  split at h
  · exact ⟨_, _, ‹_›, h⟩
  · cases h
  · cases h

theorem bind_eq_bad {p : Scanner ε α} {f : α → Scanner ε β} {s : Bytes} {e : ε} (h : (p >>= f) s = .bad e) :
    p s = .bad e ∨ ∃ a mid, p s = .done a mid ∧ f a mid = .bad e := by
  change Scanner.bind p f s = _ at h
  unfold Scanner.bind at h
  split at h
  · exact .inr ⟨_, _, ‹_›, h⟩
  · cases h
  · cases h; exact .inl ‹_›

theorem bind_eq_more {p : Scanner ε α} {f : α → Scanner ε β} {s : Bytes} (h : (p >>= f) s = .more) :
    p s = .more ∨ ∃ a mid, p s = .done a mid ∧ f a mid = .more := by
  change Scanner.bind p f s = _ at h
  unfold Scanner.bind at h
  split at h
  · exact .inr ⟨_, _, ‹_›, h⟩
  · exact .inl ‹_›
  · cases h

theorem bind_of_done {p : Scanner ε α} {s mid : Bytes} {a : α} (h : p s = .done a mid) (f : α → Scanner ε β) :
    (p >>= f) s = f a mid := by
  change Scanner.bind p f s = _
  simp only [Scanner.bind, h]

theorem bind_of_bad {p : Scanner ε α} {s : Bytes} {e : ε} (h : p s = .bad e) (f : α → Scanner ε β) :
    (p >>= f) s = .bad e := by
  change Scanner.bind p f s = _
  simp only [Scanner.bind, h]

theorem Incremental.bind {p : Scanner ε α} {f : α → Scanner ε β} (hp : p.Incremental) (hf : ∀ a, (f a).Incremental) :
    (p >>= f).Incremental where
  suffix h := by
    obtain ⟨a, mid, h1, h2⟩ := bind_eq_done h
    exact ((hf a).suffix h2).trans (hp.suffix h1)
  done h t := by
    obtain ⟨a, mid, h1, h2⟩ := bind_eq_done h
    rw [bind_of_done (hp.done h1 t)]
    exact (hf a).done h2 t
  bad h t := by
    rcases bind_eq_bad h with h1 | ⟨a, mid, h1, h2⟩
    · exact bind_of_bad (hp.bad h1 t) f
    · rw [bind_of_done (hp.done h1 t)]
      exact (hf a).bad h2 t
  more h h' := by
    obtain ⟨b, mid', h1', h2'⟩ := bind_eq_done h'
    rcases bind_eq_more h with h1 | ⟨a, mid, h1, h2⟩
    -- the first scanner already takes all that was there, and the second leaves no more than it is given
    · exact Nat.le_trans ((hf b).suffix h2').length_le (hp.more h1 h1')
    · rw [hp.done h1] at h1'
      cases h1'
      exact (hf _).more h2 h2'

theorem Consumes.bind {p : Scanner ε α} {f : α → Scanner ε β} (hp : p.Consumes) (hf : ∀ a, (f a).Incremental) :
    (p >>= f).Consumes := by
  intro s b rest h
  obtain ⟨a, mid, h1, h2⟩ := bind_eq_done h
  exact Nat.lt_of_le_of_lt ((hf a).suffix h2).length_le (hp _ _ _ h1)

theorem Incremental.bind_consumes {p : Scanner ε α} {f : α → Scanner ε β} (hp : p.Incremental)
    (hf : ∀ a, (f a).Consumes) : (p >>= f).Consumes := by
  intro s b rest h
  obtain ⟨a, mid, h1, h2⟩ := bind_eq_done h
  exact Nat.lt_of_lt_of_le (hf a _ _ _ h2) (hp.suffix h1).length_le

theorem Incremental.ite {c : Prop} [Decidable c] {p q : Scanner ε α} (hp : p.Incremental) (hq : q.Incremental) :
    (if c then p else q).Incremental := by
  split
  · exact hp
  · exact hq

/-! ## Single steps -/

theorem pure_incremental (a : α) : (Pure.pure a : Scanner ε α).Incremental where
  suffix h := by cases h; exact List.suffix_refl _
  done h t := by cases h; rfl
  bad h := by cases h
  more h := by cases h

theorem fail_incremental (e : ε) : (fail e : Scanner ε α).Incremental where
  suffix h := by cases h
  done h := by cases h
  bad h t := by cases h; rfl
  more h := by cases h

theorem next_incremental : (next : Scanner ε UInt8).Incremental where
  suffix {s _ _} h := by
    cases s with
    | nil => cases h
    | cons b s => cases h; exact List.suffix_cons _ _
  done {s _ _} h t := by
    cases s with
    | nil => cases h
    | cons b s => cases h; rfl
  bad {s _} h := by cases s <;> cases h
  more {s t _ _} h h' := by
    cases s with
    | cons b s => cases h
    | nil =>
      cases t with
      | nil => cases h'
      | cons c t => cases h'; simp

theorem peek_incremental : (peek : Scanner ε UInt8).Incremental where
  suffix {s _ _} h := by
    cases s with
    | nil => cases h
    | cons b s => cases h; exact List.suffix_refl _
  done {s _ _} h t := by
    cases s with
    | nil => cases h
    | cons b s => cases h; rfl
  bad {s _} h := by cases s <;> cases h
  more {s t _ _} h h' := by
    cases s with
    | cons b s => cases h
    | nil =>
      cases t with
      | nil => cases h'
      | cons c t => cases h'; simp

theorem byte_incremental (p : UInt8 → Bool) (e : ε) : (byte p e).Incremental :=
  .bind next_incremental fun b => .ite (pure_incremental b) (fail_incremental e)

theorem next_consumes : (next : Scanner ε UInt8).Consumes := by
  intro s b rest h
  cases s with
  | nil => cases h
  | cons c s => cases h; simp

theorem byte_consumes (p : UInt8 → Bool) (e : ε) : (byte p e).Consumes :=
  .bind next_consumes fun b => .ite (pure_incremental b) (fail_incremental e)

/-! ## Runs of bytes -/

theorem span_eq_done_iff {p : UInt8 → Bool} {s taken rest : Bytes} :
    (span p : Scanner ε Bytes) s = .done taken rest ↔ s.takeWhile p = taken ∧ s.dropWhile p = rest ∧ rest ≠ [] := by
  unfold span
  split
  · next h => simp [h]
  · next h => simp only [Scan.done.injEq]; exact ⟨fun ⟨h1, h2⟩ => ⟨h1, h2, h2 ▸ h⟩, fun ⟨h1, h2, _⟩ => ⟨h1, h2⟩⟩

theorem span_eq_more_iff {p : UInt8 → Bool} {s : Bytes} :
    (span p : Scanner ε Bytes) s = .more ↔ s.dropWhile p = [] := by
  unfold span
  split
  · next h => simp [h]
  · next h => simpa using h

theorem span_ne_bad {p : UInt8 → Bool} {s : Bytes} {e : ε} : (span p : Scanner ε Bytes) s ≠ .bad e := by
  unfold span
  split <;> simp

theorem span_incremental (p : UInt8 → Bool) : (span p : Scanner ε Bytes).Incremental where
  suffix {s _ _} h := by
    obtain ⟨-, h, -⟩ := span_eq_done_iff.1 h
    exact h ▸ List.dropWhile_suffix p
  done {s a rest} h t := by
    obtain ⟨h1, h2, h3⟩ := span_eq_done_iff.1 h
    have hd : (s ++ t).dropWhile p = rest ++ t := by
      rw [List.dropWhile_append, h2, if_neg (by simpa using h3)]
    have hs : a ++ rest = s := by rw [← h1, ← h2, List.takeWhile_append_dropWhile]
    have ht : (s ++ t).takeWhile p = a := by
      have hlt : a.length < s.length := by
        rw [← hs, List.length_append]
        exact Nat.lt_add_of_pos_right (List.length_pos_iff.2 h3)
      rw [List.takeWhile_append, h1, if_neg (by omega)]
    exact span_eq_done_iff.2 ⟨ht, hd, by simp [h3]⟩
  bad h := absurd h span_ne_bad
  more {s t a rest} h h' := by
    obtain ⟨-, h', -⟩ := span_eq_done_iff.1 h'
    rw [List.dropWhile_append, span_eq_more_iff.1 h] at h'
    exact h' ▸ (List.dropWhile_suffix p).length_le

theorem literal_incremental (e : ε) : ∀ cs : Bytes, (literal e cs).Incremental
  | [] => pure_incremental ()
  | _ :: cs => .bind (byte_incremental _ e) fun _ => literal_incremental e cs

theorem newline_incremental (e : ε) : (newline e).Incremental := by
  refine .bind next_incremental fun b => .ite ?_ (.ite (fail_incremental e) (pure_incremental _))
  exact .bind (byte_incremental _ e) fun _ => pure_incremental _

end Scanner

namespace Head

open Scanner

/-! ## Pieces of a head -/

theorem skipEmptyLines_of_ne {b : UInt8} {s : Bytes} (h10 : b ≠ 10) (h13 : b ≠ 13) :
    skipEmptyLines (b :: s) = .done () (b :: s) := by
  rw [skipEmptyLines] <;> simp_all

theorem skipEmptyLines_of_cr {b : UInt8} {s : Bytes} (h : b ≠ 10) : skipEmptyLines (13 :: b :: s) = .bad .newLine := by
  rw [skipEmptyLines] <;> simp_all

theorem skipEmptyLines_suffix {s rest : Bytes} (h : skipEmptyLines s = .done () rest) : rest <:+ s := by
  fun_induction skipEmptyLines s with
  | case1 | case4 | case5 => cases h
  | case2 s ih => exact (ih h).trans (List.suffix_cons _ _)
  | case3 s ih => exact (ih h).trans ((List.suffix_cons _ _).trans (List.suffix_cons _ _))
  | case6 => cases h; exact List.suffix_refl _

theorem skipEmptyLines_incremental : skipEmptyLines.Incremental where
  suffix h := skipEmptyLines_suffix h
  done {s _ rest} h t := by
    fun_induction skipEmptyLines s with
    | case1 | case4 | case5 => cases h
    | case2 s ih => simpa [skipEmptyLines] using ih h
    | case3 s ih => simpa [skipEmptyLines] using ih h
    | case6 s hnil hlf hcrlf hcr hne =>
      cases h
      rcases rest with _ | ⟨b, s⟩
      · exact absurd rfl hnil
      · exact skipEmptyLines_of_ne (fun e => hlf s (by rw [e])) (fun e => hne s (by rw [e]))
  bad {s _} h t := by
    fun_induction skipEmptyLines s with
    | case1 | case4 | case6 => cases h
    | case2 s ih => simpa [skipEmptyLines] using ih h
    | case3 s ih => simpa [skipEmptyLines] using ih h
    | case5 s hlf hnil =>
      cases h
      rcases s with _ | ⟨b, s⟩
      · exact absurd rfl hnil
      · exact skipEmptyLines_of_cr fun e => hlf s (by rw [e])
  more {s t _ _} h h' := by
    fun_induction skipEmptyLines s with
    | case5 | case6 => cases h
    | case1 => exact (skipEmptyLines_suffix h').length_le
    | case2 s ih => exact ih h (by simpa [skipEmptyLines] using h')
    | case3 s ih => exact ih h (by simpa [skipEmptyLines] using h')
    | case4 =>
      -- a carriage return waits for its line feed
      rcases t with _ | ⟨b, t⟩
      · cases h'
      · by_cases hb : b = 10
        · subst hb
          have := skipEmptyLines_suffix (s := t) (by simpa [skipEmptyLines] using h')
          exact Nat.le_succ_of_le this.length_le
        · rw [List.singleton_append, skipEmptyLines_of_cr hb] at h'
          cases h'

theorem method_incremental : method.Incremental :=
  .bind (byte_incremental _ _) fun _ => .bind (span_incremental _) fun _ => .bind (byte_incremental _ _) fun _ =>
    pure_incremental _

theorem target_incremental : target.Incremental := by
  refine .bind (span_incremental _) fun bytes => .bind (byte_incremental _ _) fun _ => ?_
  split
  · exact pure_incremental _
  · exact fail_incremental _

theorem version_incremental : version.Incremental :=
  .bind (literal_incremental _ _) fun _ => .bind (byte_incremental _ _) fun _ => pure_incremental _

theorem field_incremental : field.Incremental :=
  .bind (byte_incremental _ _) fun _ => .bind (span_incremental _) fun _ => .bind (byte_incremental _ _) fun _ =>
    .bind (span_incremental _) fun _ => .bind (span_incremental _) fun _ => .bind (newline_incremental _) fun _ =>
      pure_incremental _

theorem fields_incremental : ∀ slots, (fields slots).Incremental
  | 0 => by
    refine .bind peek_incremental fun _ => .ite ?_ ?_
    · exact .bind (newline_incremental _) fun _ => pure_incremental _
    · exact .bind field_incremental fun _ => .bind (fail_incremental _) fun _ => pure_incremental _
  | slots + 1 => by
    refine .bind peek_incremental fun _ => .ite ?_ ?_
    · exact .bind (newline_incremental _) fun _ => pure_incremental _
    · exact .bind field_incremental fun _ => .bind (fields_incremental slots) fun _ => pure_incremental _

/-- The head of a request is found as soon as all of it is there, and an error as soon as it is seen. -/
theorem request_incremental : request.Incremental :=
  .bind skipEmptyLines_incremental fun _ => .bind method_incremental fun _ => .bind target_incremental fun _ =>
    .bind version_incremental fun _ => .bind (newline_incremental _) fun _ => .bind (fields_incremental _) fun _ =>
      pure_incremental _

theorem statusCode_incremental : statusCode.Incremental :=
  .bind (byte_incremental _ _) fun _ => .bind (byte_incremental _ _) fun _ => .bind (byte_incremental _ _) fun _ =>
    pure_incremental _

theorem reason_incremental : reason.Incremental := by
  refine .bind peek_incremental fun _ => .ite ?_ ?_
  · exact .bind (span_incremental _) fun _ => newline_incremental _
  · exact newline_incremental _

/-- The head of a response is found as soon as all of it is there, and an error as soon as it is seen. -/
theorem response_incremental : response.Incremental :=
  .bind skipEmptyLines_incremental fun _ => .bind version_incremental fun _ => .bind (byte_incremental _ _) fun _ =>
    .bind statusCode_incremental fun _ => .bind reason_incremental fun _ => .bind (fields_incremental _) fun _ =>
      pure_incremental _

theorem method_consumes : method.Consumes :=
  .bind (byte_consumes _ _) fun _ => .bind (span_incremental _) fun _ => .bind (byte_incremental _ _) fun _ =>
    pure_incremental _

theorem request_consumes : request.Consumes :=
  Incremental.bind_consumes skipEmptyLines_incremental fun _ => .bind method_consumes fun _ =>
    .bind target_incremental fun _ => .bind version_incremental fun _ => .bind (newline_incremental _) fun _ =>
      .bind (fields_incremental _) fun _ => pure_incremental _

theorem response_consumes : response.Consumes :=
  Incremental.bind_consumes skipEmptyLines_incremental fun _ => version_incremental.bind_consumes fun _ =>
    .bind (byte_consumes _ _) fun _ => .bind statusCode_incremental fun _ => .bind reason_incremental fun _ =>
      .bind (fields_incremental _) fun _ => pure_incremental _

end Head

/-! ## The line that opens a chunk -/

namespace Chunked

open Scanner

theorem sizeDigits_suffix {room n m : Nat} {s rest : Bytes} (h : sizeDigits room n s = .done m rest) : rest <:+ s := by
  fun_induction sizeDigits room n s with
  | case1 | case3 => cases h
  | case2 => cases h; exact List.suffix_refl _
  | case4 n b s d room _ ih => exact (ih h).trans (List.suffix_cons _ _)

theorem sizeDigits_incremental (room n : Nat) : (sizeDigits room n).Incremental where
  suffix h := sizeDigits_suffix h
  done {s _ _} h t := by
    fun_induction sizeDigits room n s with
    | case1 | case3 => cases h
    | case2 room n b s hb => cases h; simp [sizeDigits, hb]
    | case4 n b s d room hb ih => simpa [sizeDigits, hb] using ih h
  bad {s _} h t := by
    fun_induction sizeDigits room n s with
    | case1 | case2 => cases h
    | case3 n b s d hb => simp [sizeDigits, hb]
    | case4 n b s d room hb ih => simpa [sizeDigits, hb] using ih h
  more {s t _ _} h h' := by
    fun_induction sizeDigits room n s with
    | case2 | case3 => cases h
    | case1 => exact (sizeDigits_suffix h').length_le
    | case4 n b s d room hb ih => exact ih h (by simpa [sizeDigits, hb] using h')

theorem sizeLine_incremental : sizeLine.Incremental := by
  refine .bind (sizeDigits_incremental 16 0) fun n => .bind (span_incremental _) fun _ =>
    .bind (byte_incremental _ _) fun mark => ?_
  have hend : (byte (· == 10) () >>= fun _ => (Pure.pure n : Scanner Unit Nat)).Incremental :=
    .bind (byte_incremental _ _) fun _ => pure_incremental n
  exact .ite (.bind (span_incremental _) fun _ => .bind next_incremental fun _ => hend) hend

theorem sizeLine_consumes : sizeLine.Consumes := by
  refine Incremental.bind_consumes (sizeDigits_incremental 16 0) fun n =>
    Incremental.bind_consumes (span_incremental _) fun _ => .bind (byte_consumes _ _) fun mark => ?_
  have hend : (byte (· == 10) () >>= fun _ => (Pure.pure n : Scanner Unit Nat)).Incremental :=
    .bind (byte_incremental _ _) fun _ => pure_incremental n
  exact .ite (.bind (span_incremental _) fun _ => .bind next_incremental fun _ => hend) hend

end Chunked

end Hypertext
