/-
Reading a response does not depend on how its bytes are cut into reads. Every reading comes to what one look at all
bytes of the stream comes to: a reader that waits stands where that look at the bytes so far would stand, and what is
decided early, a body or a flaw, is not decided otherwise when more bytes have come, as long as no head and no body is
longer than it may be.
-/
import Hypertext.Proofs.Client.Intake
import Hypertext.Proofs.Message.ChunkedGrammar

namespace Hypertext

/-- A flaw that is found in some bytes is found with more bytes too, if the body is complete, malformed or all there is
within the limit. -/
theorem Framing.decode_error_stable {f : Framing} {limit : Nat} {s t framed : Bytes} {e : BodyError}
    (hle : framed.length ≤ limit) (hframed : framed <+: s ++ t)
    (hend : framed = s ++ t ∨ f.decode limit framed ≠ .ok none) (h : f.decode limit s = .error e) :
    f.decode limit (s ++ t) = .error e := by
  rcases Nat.lt_or_ge limit s.length with hlong | hshort
  · obtain ⟨left, rfl⟩ := List.prefix_of_prefix_length_le hframed (List.prefix_append s t) (by omega)
    have hpart : f.decode limit framed ≠ .ok none := by
      refine hend.resolve_left fun hall => ?_
      have hlen := congrArg List.length hall
      simp only [List.length_append] at hlen hlong
      omega
    rcases hd : f.decode limit framed with e' | _ | ⟨body, rest⟩
    · rw [decode_error_append hle hd left] at h
      cases h
      rw [List.append_assoc]
      exact decode_error_append hle hd _
    · exact absurd hd hpart
    · rw [decode_append hd left] at h
      cases h
  · exact decode_error_append hshort h t

namespace ResponseReader

/-- A reader without the place of its buffer in memory. -/
def bare (r : ResponseReader) : ResponseReader := { r with buffer := ⟨0, 0, r.buffer.bytes⟩ }

end ResponseReader

namespace ReadState

/-- What a reader has come to, without the place of its buffer in memory. -/
def bare : ReadState → ReadState
  | .waiting r => .waiting r.bare
  | .done outcome => .done outcome

/-- The outcome if no byte comes any more. -/
def outcome (ending : ResponseReader.Ending) : ReadState → Except ClientError Received
  | .waiting r => r.readAll ending []
  | .done outcome => outcome

end ReadState

namespace ResponseReader

/-! ## One look at all bytes -/

/-- What a reader makes of these bytes when it finds them in its buffer all at once. -/
def found (toHead : Bool) (maxBody : Nat) (taken : Bytes) : ReadState :=
  (advanceHead (taken.length + 1) ⟨toHead, maxBody, .head, ⟨0, 0, taken⟩⟩).bare

/-- The same for the bytes after a final head. -/
def foundBody (toHead : Bool) (maxBody : Nat) (head : ResponseHead) (rest : Bytes) : ReadState :=
  match Framing.forResponse head.code toHead (Head.headers head.fields) with
  | .error e => .done (violation e.message)
  | .ok framing =>
    (advanceBody ⟨toHead, maxBody, .head, ⟨0, 0, rest⟩⟩ head (Head.headers head.fields) framing).bare

variable {toHead : Bool} {maxBody : Nat} {taken after rest piece : Bytes} {r r' : ResponseReader}
  {head : ResponseHead} {headers : Headers} {framing : Framing} {ending : Ending}

theorem bare_eq_iff : r.bare = r'.bare ↔ r.toHead = r'.toHead ∧ r.maxBody = r'.maxBody ∧ r.awaited = r'.awaited ∧
    r.buffer.bytes = r'.buffer.bytes := by
  simp [bare]

/-- What a reader makes of a body does not depend on the place of its buffer in memory, nor on what it has waited for
before. -/
theorem advanceBody_bare (hhead : r.toHead = r'.toHead) (hmax : r.maxBody = r'.maxBody)
    (hbytes : r.buffer.bytes = r'.buffer.bytes) :
    (r.advanceBody head headers framing).bare = (r'.advanceBody head headers framing).bare := by
  unfold advanceBody
  rw [← hmax, ← hbytes]
  cases framing.decode r.maxBody r.buffer.bytes with
  | error e => rfl
  | ok part =>
    cases part with
    | none => simp [ReadState.bare, bare, hhead, hmax, hbytes]
    | some p => simp [ReadState.bare, finish, hmax]

/-- What a reader makes of a head does not depend on the place of its buffer in memory, nor on the number of steps if
that is above the number of bytes: each head takes at least one. -/
theorem advanceHead_bare : ∀ (k k' : Nat) {r r' : ResponseReader}, r.buffer.bytes.length < k →
    r.buffer.bytes.length < k' → r.bare = r'.bare → (advanceHead k r).bare = (advanceHead k' r').bare
  | 0, _, _, _, hk, _, _ => absurd hk (Nat.not_lt_zero _)
  | _ + 1, 0, _, _, _, hk', _ => absurd hk' (Nat.not_lt_zero _)
  | k + 1, k' + 1, r, r', hk, hk', h => by
    obtain ⟨hhead, hmax, hawaited, hbytes⟩ := bare_eq_iff.1 h
    unfold advanceHead
    rw [← hbytes]
    split
    · exact congrArg ReadState.waiting h
    · split
      · rfl
      · split
        · rfl
        · exact congrArg ReadState.waiting h
      · next head rest hread =>
        have hlt := Head.response_consumes _ _ _ hread
        simp only []
        split
        · refine advanceHead_bare k k' ?_ ?_ (bare_eq_iff.2 ⟨hhead, hmax, hawaited, rfl⟩)
          · show rest.length < k
            omega
          · show rest.length < k'
            omega
        · rw [← hhead]
          split
          · rfl
          · exact advanceBody_bare rfl hmax rfl

/-! ### What is found, by the head that comes first -/

theorem found_of_bad {e : HeadError} (h : Head.response taken = .bad e) :
    found toHead maxBody taken = .done (violation s!"malformed response head: {e.message}") := by
  have hne : taken.isEmpty = false := by
    cases taken with
    | nil => cases h
    | cons => rfl
  simp [found, advanceHead, hne, h, ReadState.bare]

theorem found_of_more (h : Head.response taken = .more) : found toHead maxBody taken =
    if maxHead < taken.length then .done (violation "response head too large")
    else .waiting ⟨toHead, maxBody, .head, ⟨0, 0, taken⟩⟩ := by
  cases taken with
  | nil => rfl
  | cons b taken =>
    rw [found, advanceHead, h]
    simp only [List.isEmpty_cons, Bool.false_eq_true, if_false]
    split <;> rfl

theorem ne_nil_of_done (h : Head.response taken = .done head rest) : taken ≠ [] := by
  rintro rfl
  cases h

theorem found_of_interim (h : Head.response taken = .done head rest) (hcode : isInterim head.code = true) :
    found toHead maxBody taken = found toHead maxBody rest := by
  have hlt := Head.response_consumes _ _ _ h
  have hne : ¬ taken.isEmpty = true := fun hempty => ne_nil_of_done h (List.isEmpty_iff.1 hempty)
  rw [found, advanceHead, if_neg hne, h]
  simp only [if_pos hcode]
  exact advanceHead_bare _ _ hlt (Nat.lt_succ_self _) rfl

theorem found_of_final (h : Head.response taken = .done head rest) (hcode : isInterim head.code = false) :
    found toHead maxBody taken = foundBody toHead maxBody head rest := by
  have hne : ¬ taken.isEmpty = true := fun hempty => ne_nil_of_done h (List.isEmpty_iff.1 hempty)
  rw [found, advanceHead, if_neg hne, h, foundBody]
  simp only [hcode, Bool.false_eq_true, if_false]
  cases Framing.forResponse head.code toHead (Head.headers head.fields) with
  | error e => rfl
  | ok framing => exact advanceBody_bare rfl rfl rfl

theorem foundBody_of_framed (h : Framing.forResponse head.code toHead (Head.headers head.fields) = .ok framing) :
    foundBody toHead maxBody head rest = match framing.decode maxBody rest with
      | .error e => .done (violation e.message)
      | .ok none => .waiting ⟨toHead, maxBody, .body head (Head.headers head.fields) framing, ⟨0, 0, rest⟩⟩
      | .ok (some (body, rest)) =>
        .done ((new toHead maxBody).finish head (Head.headers head.fields) framing body rest) := by
  rw [foundBody, h]
  simp only [advanceBody]
  rcases framing.decode maxBody rest with e | _ | ⟨body, rest⟩ <;> rfl

theorem found_of_passes (h : Passes taken after) : found toHead maxBody taken = found toHead maxBody after := by
  induction h with
  | refl => rfl
  | interim hread hcode _ ih => exact (found_of_interim hread hcode).trans ih

/-- Interim heads are passed over to a place where there is none, and more bytes do not change that. -/
theorem exists_passes (toHead : Bool) (maxBody : Nat) (taken : Bytes) : ∃ after, Passes taken after ∧
    (∀ piece, found toHead maxBody (taken ++ piece) = found toHead maxBody (after ++ piece)) ∧
    ∀ head rest, Head.response after = .done head rest → isInterim head.code = false := by
  cases hread : Head.response taken with
  | done head rest =>
    cases hcode : isInterim head.code with
    | true =>
      have hlt := Head.response_consumes _ _ _ hread
      obtain ⟨after, hpassed, hsame, hfinal⟩ := exists_passes toHead maxBody rest
      refine ⟨after, .interim hread hcode hpassed, fun piece => ?_, hfinal⟩
      rw [found_of_interim (Head.response_incremental.done hread piece) hcode, hsame]
    | false =>
      refine ⟨taken, .refl, fun _ => rfl, fun head' rest' h => ?_⟩
      rw [hread] at h
      cases h
      exact hcode
  | more | bad =>
    refine ⟨taken, .refl, fun _ => rfl, fun head' rest' h => ?_⟩
    rw [hread] at h
    cases h
termination_by taken.length

/-! ## Readers that wait -/

/-- A reader that waits where a look at the bytes so far would wait makes of more bytes what a look at all of them
would. -/
theorem feed_found (h : found toHead maxBody taken = .waiting r.bare) (piece : Bytes) :
    (r.feed piece).bare = found toHead maxBody (taken ++ piece) := by
  obtain ⟨after, -, hsame, hfinal⟩ := exists_passes toHead maxBody taken
  have hafter := hsame []
  rw [List.append_nil, List.append_nil, h] at hafter
  rw [hsame]
  clear h hsame
  cases hread : Head.response after with
  | bad e =>
    rw [found_of_bad hread] at hafter
    cases hafter
  | more =>
    rw [found_of_more hread] at hafter
    split at hafter
    · cases hafter
    · obtain ⟨t, m, awaited, buffer⟩ := r
      cases hafter
      exact advanceHead_bare _ _ (Nat.lt_succ_self _) (Nat.lt_succ_self _) rfl
  | done head rest =>
    have hcode := hfinal head rest hread
    rw [found_of_final hread hcode] at hafter
    rw [found_of_final (Head.response_incremental.done hread piece) hcode]
    cases hframing : Framing.forResponse head.code toHead (Head.headers head.fields) with
    | error e =>
      rw [foundBody, hframing] at hafter
      cases hafter
    | ok framing =>
      rw [foundBody_of_framed hframing] at hafter
      split at hafter
      · cases hafter
      · obtain ⟨t, m, awaited, buffer⟩ := r
        cases hafter
        rw [foundBody, hframing]
        exact advanceBody_bare rfl rfl rfl
      · cases hafter

/-- A piece that needs several reads is read until the reader is done. -/
theorem feedPiece_found : ∀ {steps : Nat} {piece taken : Bytes} {r : ResponseReader}, piece.length ≤ steps →
    found toHead maxBody taken = .waiting r.bare → ∃ seen left, piece = seen ++ left ∧
      (r.feedPiece steps piece).bare = found toHead maxBody (taken ++ seen) ∧
      ∀ next, r.feedPiece steps piece = .waiting next → left = []
  | 0, piece, taken, r, hle, h => by
    obtain rfl : piece = [] := List.eq_nil_of_length_eq_zero (Nat.le_zero.1 hle)
    exact ⟨[], [], rfl, by rw [List.append_nil, h]; rfl, fun _ _ => rfl⟩
  | steps + 1, [], taken, r, _, h => ⟨[], [], rfl, by rw [List.append_nil, h]; rfl, fun _ _ => rfl⟩
  | steps + 1, b :: bs, taken, r, hle, h => by
    have hroom := r.buffer.room_pos
    have hfed := feed_found h ((b :: bs).take r.buffer.room)
    rw [feedPiece, if_neg (by simp)]
    cases hfeed : r.feed ((b :: bs).take r.buffer.room) with
    | done outcome =>
      rw [hfeed] at hfed
      exact ⟨_, (b :: bs).drop r.buffer.room, (List.take_append_drop _ _).symm, hfed, nofun⟩
    | waiting next =>
      rw [hfeed] at hfed
      have hshort : ((b :: bs).drop r.buffer.room).length ≤ steps := by
        rw [List.length_drop]
        omega
      obtain ⟨seen, left, hsplit, hseen, hleft⟩ := feedPiece_found hshort hfed.symm
      refine ⟨(b :: bs).take r.buffer.room ++ seen, left, ?_, ?_, hleft⟩
      · rw [List.append_assoc, ← hsplit, List.take_append_drop]
      · rw [hseen, List.append_assoc]

/-! ## Readers that are done -/

/-- No head of the response at the front of a stream is longer than a head may be, where one that breaks off or is
malformed counts as far as it goes; and of the body that is announced no more than the limit comes before it is
complete or malformed or the stream ends. -/
structure Moderate (toHead : Bool) (maxBody : Nat) (stream : Bytes) : Prop where
  heads : ∀ after part, Passes stream after → part <+: after → Head.response part = .more →
    part.length ≤ maxHead
  body : ∀ head framing rest, Opens toHead stream head framing rest → ∃ framed, framed <+: rest ∧
    framed.length ≤ maxBody ∧ (framed = rest ∨ framing.decode maxBody framed ≠ .ok none)

/-- No byte follows the response in a stream. -/
def IsLast (toHead : Bool) (maxBody : Nat) (stream : Bytes) : Prop :=
  ∀ head framing wire body rest, Opens toHead stream head framing wire →
    framing.decode maxBody wire = .ok (some (body, rest)) → rest = []

/-- Two outcomes agree in the response or in the failure, and in everything if no byte follows the response. -/
structure Agrees (last : Prop) (a b : Except ClientError Received) : Prop where
  response : a.map (·.response) = b.map (·.response)
  spent : last → a = b

theorem Agrees.refl {last : Prop} (a : Except ClientError Received) : Agrees last a a := ⟨rfl, fun _ => rfl⟩

theorem Agrees.symm {last : Prop} {a b : Except ClientError Received} (h : Agrees last a b) : Agrees last b a :=
  ⟨h.response.symm, fun hlast => (h.spent hlast).symm⟩

theorem Agrees.trans {last : Prop} {a b c : Except ClientError Received} (h : Agrees last a b) (h' : Agrees last b c) :
    Agrees last a c := ⟨h.response.trans h'.response, fun hlast => (h.spent hlast).trans (h'.spent hlast)⟩

/-- What follows a body only matters for whether the connection is spent. -/
theorem finish_agrees {last : Prop} {body rest rest' : Bytes} (h : last → rest = rest') :
    Agrees last (r.finish head headers framing body rest) (r.finish head headers framing body rest') := by
  constructor
  · unfold finish
    cases decoded r.maxBody headers body <;> rfl
  · intro hlast
    rw [h hlast]

/-- What is decided after some bytes is not decided otherwise after more. -/
theorem found_agrees {outcome : Except ClientError Received} (hm : Moderate toHead maxBody (taken ++ piece))
    (h : found toHead maxBody taken = .done outcome) :
    ∃ outcome', found toHead maxBody (taken ++ piece) = .done outcome' ∧
      Agrees (IsLast toHead maxBody (taken ++ piece)) outcome outcome' := by
  obtain ⟨after, hpassed, hsame, hfinal⟩ := exists_passes toHead maxBody taken
  have hafter := hsame []
  rw [List.append_nil, List.append_nil, h] at hafter
  rw [hsame]
  clear h hsame
  have hall := hpassed.append piece
  cases hread : Head.response after with
  | bad e =>
    rw [found_of_bad hread] at hafter
    cases hafter
    exact ⟨_, found_of_bad (Head.response_incremental.bad hread piece), .refl _⟩
  | more =>
    have hsmall := hm.heads _ _ hall (List.prefix_append after piece) hread
    rw [found_of_more hread, if_neg (by omega)] at hafter
    cases hafter
  | done head rest =>
    have hcode := hfinal head rest hread
    have hread' := Head.response_incremental.done hread piece
    rw [found_of_final hread hcode] at hafter
    rw [found_of_final hread' hcode]
    cases hframing : Framing.forResponse head.code toHead (Head.headers head.fields) with
    | error e =>
      rw [foundBody, hframing] at hafter ⊢
      cases hafter
      exact ⟨_, rfl, .refl _⟩
    | ok framing =>
      have hopens : Opens toHead (taken ++ piece) head framing (rest ++ piece) :=
        ⟨⟨_, hall, hread'⟩, hcode, hframing⟩
      rw [foundBody_of_framed hframing] at hafter ⊢
      cases hd : framing.decode maxBody rest with
      | error e =>
        obtain ⟨framed, hprefix, hle, hend⟩ := hm.body _ _ _ hopens
        rw [hd] at hafter
        cases hafter
        rw [Framing.decode_error_stable hle hprefix hend hd]
        exact ⟨_, rfl, .refl _⟩
      | ok part =>
        cases part with
        | none =>
          rw [hd] at hafter
          cases hafter
        | some found =>
          have hd' := Framing.decode_append hd piece
          rw [hd] at hafter
          cases hafter
          rw [hd']
          refine ⟨_, rfl, finish_agrees fun hlast => ?_⟩
          have hnil := hlast _ _ _ _ _ hopens hd'
          rw [hnil]
          exact (List.append_eq_nil_iff.1 hnil).1

/-! ## Whole runs -/

theorem outcome_bare (r : ResponseReader) : (ReadState.waiting r.bare).outcome ending = r.readAll ending [] := by
  obtain ⟨t, m, awaited, buffer⟩ := r
  cases ending with
  | closed =>
    cases awaited with
    | head => rfl
    | body head headers framing => cases framing <;> rfl
  | failed text => rfl
  | overdue limit => rfl

/-- Reading from pieces comes to what one look at all bytes comes to. -/
theorem readAll_agrees : ∀ {pieces : List Bytes} {taken : Bytes} {r : ResponseReader},
    found toHead maxBody taken = .waiting r.bare → Moderate toHead maxBody (taken ++ pieces.flatten) →
    Agrees (IsLast toHead maxBody (taken ++ pieces.flatten)) (r.readAll ending pieces)
      ((found toHead maxBody (taken ++ pieces.flatten)).outcome ending)
  | [], taken, r, h, _ => by
    rw [List.flatten_nil, List.append_nil, h, outcome_bare]
    exact .refl _
  | piece :: pieces, taken, r, h, hm => by
    obtain ⟨seen, left, rfl, hseen, hleft⟩ := feedPiece_found (Nat.le_refl piece.length) h
    rw [readAll]
    cases hfeed : r.feedPiece (seen ++ left).length (seen ++ left) with
    | done outcome =>
      have hsplit : taken ++ ((seen ++ left) :: pieces).flatten = (taken ++ seen) ++ (left ++ pieces.flatten) := by simp
      rw [hsplit] at hm ⊢
      rw [hfeed] at hseen
      obtain ⟨outcome', hfound, hagrees⟩ := found_agrees hm hseen.symm
      rw [hfound]
      exact hagrees
    | waiting next =>
      have hsplit : taken ++ ((seen ++ left) :: pieces).flatten = (taken ++ seen) ++ pieces.flatten := by
        simp [hleft next hfeed]
      rw [hsplit] at hm ⊢
      rw [hfeed] at hseen
      exact readAll_agrees hseen.symm hm

/-! ## Streams that are short, and what follows a response -/

theorem Passes.suffix {b after : Bytes} (h : Passes b after) : after <:+ b := by
  induction h with
  | refl => exact List.suffix_refl _
  | interim read _ _ ih => exact ih.trans (Head.response_incremental.suffix read)

theorem moderate_of_length_le {stream : Bytes} (hhead : stream.length ≤ maxHead) (hbody : stream.length ≤ maxBody) :
    Moderate toHead maxBody stream := by
  constructor
  · intro after part hpassed hpart _
    exact (hpart.length_le.trans hpassed.suffix.length_le).trans hhead
  · rintro head framing rest ⟨⟨after, hpassed, hread⟩, -, -⟩
    have hle := (Head.response_incremental.suffix hread).length_le.trans hpassed.suffix.length_le
    exact ⟨rest, List.prefix_refl _, hle.trans hbody, .inl rfl⟩

/-- The interim heads before a final head are passed over in one way only. -/
theorem Passes.unique {b after after' rest rest' : Bytes} {head head' : ResponseHead} (h : Passes b after)
    (h' : Passes b after') (hread : Head.response after = .done head rest) (hfinal : isInterim head.code = false)
    (hread' : Head.response after' = .done head' rest') (hfinal' : isInterim head'.code = false) : after = after' := by
  induction h with
  | refl =>
    cases h' with
    | refl => rfl
    | interim read code =>
      rw [hread] at read
      cases read
      rw [hfinal] at code
      cases code
  | interim read code _ ih =>
    cases h' with
    | refl =>
      rw [hread'] at read
      cases read
      rw [hfinal'] at code
      cases code
    | interim read' _ others =>
      rw [read] at read'
      cases read'
      exact ih others hread

/-- There is one final head in a stream. -/
theorem Opens.unique {stream wire wire' : Bytes} {head' : ResponseHead} {framing' : Framing}
    (h : Opens toHead stream head framing wire) (h' : Opens toHead stream head' framing' wire') :
    head = head' ∧ framing = framing' ∧ wire = wire' := by
  obtain ⟨⟨after, hpassed, hread⟩, hfinal, hframed⟩ := h
  obtain ⟨⟨after', hpassed', hread'⟩, hfinal', hframed'⟩ := h'
  obtain rfl := hpassed.unique hpassed' hread hfinal hread' hfinal'
  rw [hread] at hread'
  cases hread'
  rw [hframed] at hframed'
  cases hframed'
  exact ⟨rfl, rfl, rfl⟩

/-- A response with nothing behind its body is the last one. -/
theorem Opens.isLast {stream wire body : Bytes} (h : Opens toHead stream head framing wire)
    (hbody : framing.decode maxBody wire = .ok (some (body, []))) : IsLast toHead maxBody stream := by
  intro head' framing' wire' body' rest' h' hbody'
  obtain ⟨rfl, rfl, rfl⟩ := h.unique h'
  rw [hbody] at hbody'
  cases hbody'
  rfl

end ResponseReader

namespace ClientResponse

open ResponseReader

/-! ## Main result -/

/-- A reading from the beginning comes to what one look at all bytes comes to. -/
theorem read_agrees {toHead : Bool} {maxBody : Nat} {pieces : List Bytes} (hm : Moderate toHead maxBody pieces.flatten)
    (ending : Ending) :
    Agrees (IsLast toHead maxBody pieces.flatten) (read toHead maxBody pieces ending)
      ((found toHead maxBody pieces.flatten).outcome ending) := by
  have hnew : found toHead maxBody [] = .waiting (new toHead maxBody).bare := rfl
  have hread : Agrees _ (read toHead maxBody pieces ending) _ := readAll_agrees hnew hm
  rwa [List.nil_append] at hread

/-- A response with nothing behind its body is what any reading gives. -/
theorem read_of_opens {toHead : Bool} {maxBody : Nat} {pieces : List Bytes} {head : ResponseHead} {framing : Framing}
    {wire body : Bytes} (hm : Moderate toHead maxBody pieces.flatten)
    (hopens : Opens toHead pieces.flatten head framing wire)
    (hbody : framing.decode maxBody wire = .ok (some (body, []))) (ending : Ending) :
    read toHead maxBody pieces ending =
      (new toHead maxBody).finish head (Head.headers head.fields) framing body [] := by
  rw [(read_agrees hm ending).spent (hopens.isLast hbody)]
  obtain ⟨⟨after, hpassed, hhead⟩, hfinal, hframed⟩ := hopens
  rw [found_of_passes hpassed, found_of_final hhead hfinal, foundBody_of_framed hframed, hbody]
  rfl

/-- Two readings of the same bytes, cut into reads in any two ways and followed by the same end or failure, come to the
same response or to the same error, if no head is longer than a head may be and the body is within the limit. They also
agree about the connection if no byte follows the response. -/
theorem read_of_cuts {toHead : Bool} {maxBody : Nat} {pieces pieces' : List Bytes}
    (hcut : pieces.flatten = pieces'.flatten) (hm : Moderate toHead maxBody pieces.flatten) (ending : Ending) :
    (read toHead maxBody pieces ending).map (·.response) = (read toHead maxBody pieces' ending).map (·.response) ∧
    (IsLast toHead maxBody pieces.flatten →
      read toHead maxBody pieces ending = read toHead maxBody pieces' ending) := by
  have hfirst := read_agrees hm ending
  have hsecond := read_agrees (hcut ▸ hm : Moderate toHead maxBody pieces'.flatten) ending
  rw [← hcut] at hsecond
  have hboth := hfirst.trans hsecond.symm
  exact ⟨hboth.response, hboth.spent⟩

/-- An interim response and one with a body in chunks: all at once, and cut within a head and within the data. Both
readings give the final response, with its body put together, and leave the connection good for another one. -/
theorem read_of_cuts_chunked :
    let interim := Bytes.ofText "HTTP/1.1 100 Continue\r\n\r\n"
    let head := Bytes.ofText "HTTP/1.1 200 OK\r\nTransfer-Encoding: chunked\r\n\r\n"
    let body := Bytes.ofText "2\r\nok\r\n0\r\n\r\n"
    let pieces := [interim ++ (head ++ body)]
    let pieces' := [interim.take 3, interim.drop 3 ++ (head ++ body.take 4), body.drop 4]
    pieces.flatten = pieces'.flatten ∧ Moderate false 1024 pieces.flatten ∧ IsLast false 1024 pieces.flatten ∧
      read false 1024 pieces .closed = read false 1024 pieces' .closed ∧
      read false 1024 pieces' .closed =
        .ok ⟨⟨200, .http11, ⟨[("Transfer-Encoding", "chunked")]⟩, Bytes.ofText "ok"⟩, false⟩ := by
  intro interim head body pieces pieces'
  have hcut : pieces.flatten = pieces'.flatten := by decide
  have hm : Moderate false 1024 pieces.flatten := moderate_of_length_le (by decide) (by decide)
  let h : ResponseHead := ⟨.http11, 200, [⟨"Transfer-Encoding", Bytes.ofText "chunked"⟩]⟩
  have hinterim : Head.response pieces.flatten = .done ⟨.http11, 100, []⟩ (head ++ body) := rfl
  have hread : Head.response (head ++ body) = .done h body := rfl
  have hframed : Framing.forResponse 200 false (Head.headers [⟨"Transfer-Encoding", Bytes.ofText "chunked"⟩]) =
      .ok .chunked := by decide
  have hopens : Opens false pieces.flatten h .chunked body :=
    ⟨⟨_, .interim hinterim rfl .refl, hread⟩, rfl, hframed⟩
  let two : Chunked.SizeLine := ⟨Bytes.ofText "2", [], none, List.forall_mem_singleton.2 rfl, by decide,
    List.forall_mem_nil _, by decide⟩
  let last : Chunked.SizeLine := ⟨Bytes.ofText "0", [], none, List.forall_mem_singleton.2 rfl, by decide,
    List.forall_mem_nil _, by decide⟩
  let w : Chunked.Wire := ⟨[⟨two, Bytes.ofText "ok", by decide, by decide⟩], last, by decide, []⟩
  have hbody : Framing.chunked.decode 1024 body = .ok (some (Bytes.ofText "ok", [])) :=
    Framing.decode_chunked_iff.2 ⟨w, by decide, by decide, by decide⟩
  have hlast := hopens.isLast hbody
  have hsame := (read_of_cuts hcut hm .closed).2 hlast
  exact ⟨hcut, hm, hlast, hsame, hsame.symm.trans (read_of_opens hm hopens hbody .closed)⟩

end ClientResponse

end Hypertext
