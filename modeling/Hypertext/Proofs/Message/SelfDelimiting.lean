/-
Responses that say where they end. The head of a response that is written announces the very bytes that follow it,
whatever lengths and connection options a handler has set, unless the handler has named a transfer coding: that field is
sent as it is and counts more than the length, and the body is never written in chunks.
-/
import Hypertext.Proofs.Client.ResponseRoundTrip
import Hypertext.Proofs.Message.BodySize

namespace Hypertext

namespace Chunked

/-! ## Chunks are longer than what they carry -/

variable {total limit : Nat} {rest body : Bytes}

theorem trailers_body {lineStart : Bool} {s : Bytes} (h : trailers total limit lineStart s = .ok (some (body, rest))) :
    body = [] := by
  fun_induction trailers total limit lineStart s with
  | case1 => cases h
  | case2 => cases h; rfl
  | case3 b r _ _ ih => exact ih h
  | case4 => exact absurd h (unfinished_ne_some _ _ _)
  | case5 r ih => exact ih h
  | case6 b r _ ih => exact ih h
  | case7 => exact absurd h (unfinished_ne_some _ _ _)

theorem length_lt_of_chunks {s body : Bytes} (h : chunks total limit s = .ok (some (body, rest))) :
    body.length + rest.length < s.length := by
  rcases chunks_eq_some_iff.1 h with ⟨r, hs, hr⟩ | ⟨size, r, b, -, hs, -, hlen, -, hb, rfl⟩
  · have hlt := sizeLine_consumes _ _ _ hs
    have hrest := trailers_lt hr
    rw [trailers_body hr, List.length_nil]
    omega
  · have hlt := sizeLine_consumes _ _ _ hs
    have hlater := length_lt_of_chunks hb
    rw [List.length_drop] at hlater
    rw [List.length_append, List.length_take]
    omega
termination_by s.length
decreasing_by simp; omega

end Chunked

namespace Response

/-- The head of a response announces the bytes that follow it: all of them belong to the body, and nothing else does. -/
def Delimits (toHead : Bool) (r : Response) : Prop :=
  ∃ f, Framing.forResponse r.status.code toHead ⟨r.lines⟩ = .ok f ∧
    ∀ limit, (r.wireBody toHead).length ≤ limit →
      f.decode limit (r.wireBody toHead) = .ok (some (r.wireBody toHead, []))

variable {r : Response} {toHead : Bool}

theorem wireBody_of_empty (h : toHead = true ∨ r.status.forbidsBody = true) : r.wireBody toHead = [] := by
  unfold wireBody sentBody
  rcases h with rfl | h
  · rfl
  · simp [h]

/-- Without a body the head ends the response. -/
theorem delimits_of_empty (h : toHead = true ∨ r.status.forbidsBody = true) : r.Delimits toHead := by
  refine ⟨.empty, ?_, fun limit _ => ?_⟩
  · rw [forResponse_code, if_pos (by simpa using h)]
  · rw [wireBody_of_empty h]
    rfl

/-- The length that is written is that of the body. -/
theorem delimits_of_plain (hplain : r.headers.contains "transfer-encoding" = false)
    (hlength : r.sentBody.length ≤ Text.maxWord) : r.Delimits toHead := by
  by_cases hempty : toHead = true ∨ r.status.forbidsBody = true
  · exact delimits_of_empty hempty
  · have hframing := forResponse_lines hplain hlength toHead
    rw [if_neg (by simpa using hempty)] at hframing
    refine ⟨_, hframing, fun limit hlimit => ?_⟩
    have hbody : r.wireBody toHead = r.sentBody := by
      unfold wireBody
      rw [if_neg fun h => hempty (.inl h)]
    rw [hbody] at hlimit ⊢
    have hdecode := Framing.decode_ofLength hlimit []
    rwa [List.append_nil] at hdecode

/-- Where a transfer coding is named the framing is by chunks or there is none. -/
theorem announced_of_coding {h : Headers} (hcoding : h.contains "transfer-encoding" = true) :
    Framing.announced h = .ok (some .chunked) ∨ ∃ e, Framing.announced h = .error e := by
  unfold Framing.announced
  rw [if_pos hcoding]
  dsimp only
  split_ifs
  · exact .inl rfl
  · exact .inr ⟨_, rfl⟩

/-- A body is never written in chunks, so one that is announced that way does not end where it is announced to. -/
theorem not_delimits_of_coding (hempty : ¬ (toHead = true ∨ r.status.forbidsBody = true))
    (hcoding : r.headers.contains "transfer-encoding" = true) : ¬ r.Delimits toHead := by
  rintro ⟨f, hf, hdecode⟩
  have hlines : Headers.contains "transfer-encoding" ⟨r.lines⟩ = true := by
    rw [← Bool.not_eq_false, Headers.contains_eq_false_iff, getAll_lines_of_own (by decide) (by decide) (by decide),
      ← Headers.contains_eq_false_iff, hcoding]
    exact Bool.noConfusion
  rw [forResponse_code, if_neg (by simpa using hempty)] at hf
  rcases announced_of_coding hlines with hchunked | ⟨e, herror⟩
  · rw [hchunked] at hf
    cases hf
    have hlt := Chunked.length_lt_of_chunks (hdecode _ (Nat.le_refl _))
    simp at hlt
  · rw [herror] at hf
    cases hf

/-- A response is written as the lines of its head and the bytes that are sent after it. They are what the head
announces exactly if there are none to be sent or no transfer coding is named. -/
theorem encode_delimits (hlength : r.sentBody.length ≤ Text.maxWord) (toHead : Bool) :
    r.encode toHead = Head.statusLine r.status ++ (r.lines.flatMap Head.lineOf ++ Bytes.crlf) ++ r.wireBody toHead ∧
    (r.Delimits toHead ↔
      toHead = true ∨ r.status.forbidsBody = true ∨ r.headers.contains "transfer-encoding" = false) := by
  refine ⟨by rw [encode_eq, ofText_head], ?_⟩
  rw [← or_assoc]
  by_cases hempty : toHead = true ∨ r.status.forbidsBody = true
  · simp only [hempty, true_or, iff_true]
    exact delimits_of_empty hempty
  · simp only [hempty, false_or]
    constructor
    · intro hdelimits
      by_contra hcoding
      exact not_delimits_of_coding hempty (by simpa using hcoding) hdelimits
    · exact fun hplain => delimits_of_plain hplain hlength

/-- A response for which a handler has set lengths and a connection option of its own. -/
def misled : Response :=
  ⟨.ok, ⟨[("Content-Length", "9"), ("content-length", "1"), ("Connection", "close")]⟩, [104, 101, 108, 108, 111], true⟩

theorem misled_delimits : misled.HasFields ∧ misled.Delimits false :=
  ⟨by decide, ((encode_delimits (by decide) false).2.2 (.inr (.inr (by decide))))⟩

/-- A response that a handler has labelled as chunked. -/
def labelledChunked : Response := ⟨.ok, ⟨[("Transfer-Encoding", "chunked")]⟩, [104, 101, 108, 108, 111], true⟩

/-- The label is sent with a length beside it, and a reader of chunks finds none. -/
theorem labelledChunked_runs_on :
    labelledChunked.HasFields ∧ Framing.forResponse 200 false ⟨labelledChunked.lines⟩ = .ok .chunked ∧
    Framing.chunked.decode 5 (labelledChunked.wireBody false) = .error .invalidChunk ∧
    ¬ labelledChunked.Delimits false := by
  have hsize : Chunked.sizeLine (labelledChunked.wireBody false) = .bad () := rfl
  refine ⟨by decide, rfl, Chunked.chunks_of_bad hsize, not_delimits_of_coding (by decide) rfl⟩

end Response

end Hypertext
