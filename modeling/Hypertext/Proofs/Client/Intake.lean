/-
What a reader of responses has made of the bytes it has taken: the heads of interim responses, the head of the final
one, and a part or all of its body. If the bytes are those that a server has sent for the request, then the response
that is received is the server's, and nothing of what was sent for the request is left.
-/
import Hypertext.Client.Incoming
import Hypertext.Proofs.Client.ProperBody
import Hypertext.Proofs.Message.RawResponse

namespace Hypertext

namespace ResponseReader

/-! ## Heads that have been taken -/

/-- Some bytes begin with the heads of interim responses, and others stand behind these. -/
inductive Passes : Bytes → Bytes → Prop
  | refl {b : Bytes} : Passes b b
  | interim {b rest after : Bytes} {head : ResponseHead} (read : Head.response b = .done head rest)
      (code : isInterim head.code = true) (others : Passes rest after) : Passes b after

theorem Passes.append {b after : Bytes} (h : Passes b after) (t : Bytes) : Passes (b ++ t) (after ++ t) := by
  induction h with
  | refl => exact .refl
  | interim read code _ ih => exact .interim (Head.response_incremental.done read t) code ih

theorem Passes.trans {a b c : Bytes} (h : Passes a b) (h' : Passes b c) : Passes a c := by
  induction h with
  | refl => exact h'
  | interim read code _ ih => exact .interim read code (ih h')

/-- Behind the heads of interim responses stand a final head and these bytes. -/
structure Opens (toHead : Bool) (taken : Bytes) (head : ResponseHead) (framing : Framing) (rest : Bytes) : Prop where
  passed : ∃ after, Passes taken after ∧ Head.response after = .done head rest
  final : isInterim head.code = false
  framed : Framing.forResponse head.code toHead (Head.headers head.fields) = .ok framing

theorem Opens.append {toHead : Bool} {taken rest : Bytes} {head : ResponseHead} {framing : Framing}
    (h : Opens toHead taken head framing rest) (t : Bytes) : Opens toHead (taken ++ t) head framing (rest ++ t) := by
  obtain ⟨⟨after, hpassed, hread⟩, hfinal, hframed⟩ := h
  exact ⟨⟨after ++ t, hpassed.append t, Head.response_incremental.done hread t⟩, hfinal, hframed⟩

/-! ## Readers that wait, and responses that are received -/

/-- A reader waits after these bytes. -/
inductive Holds (toHead : Bool) (maxBody : Nat) (taken : Bytes) : ResponseReader → Prop
  | head {buffer : ReadBuffer} (passed : Passes taken buffer.bytes) :
      Holds toHead maxBody taken ⟨toHead, maxBody, .head, buffer⟩
  | body {head : ResponseHead} {framing : Framing} {buffer : ReadBuffer}
      (opens : Opens toHead taken head framing buffer.bytes) :
      Holds toHead maxBody taken ⟨toHead, maxBody, .body head (Head.headers head.fields) framing, buffer⟩

/-- A response is received from these bytes: its body has an end among them, or it ends with the connection. -/
inductive Took (toHead : Bool) (maxBody : Nat) (taken : Bytes) : (closed : Bool) → Received → Prop
  | ended {head : ResponseHead} {framing : Framing} {wire body content rest : Bytes} {headers : Headers}
      (opens : Opens toHead taken head framing wire) (found : framing.decode maxBody wire = .ok (some (body, rest)))
      (coding : decoded maxBody (Head.headers head.fields) body = .ok (headers, content)) :
      Took toHead maxBody taken false ⟨⟨head.code, head.version, headers, content⟩, !rest.isEmpty⟩
  | closed {head : ResponseHead} {wire content : Bytes} {headers : Headers}
      (opens : Opens toHead taken head .untilClose wire)
      (coding : decoded maxBody (Head.headers head.fields) wire = .ok (headers, content)) :
      Took toHead maxBody taken true ⟨⟨head.code, head.version, headers, content⟩, true⟩

/-- A reader that has taken these bytes is in this state. -/
def Follows (toHead : Bool) (maxBody : Nat) (taken : Bytes) : ReadState → Prop
  | .waiting r => Holds toHead maxBody taken r
  | .done outcome => ∀ received, outcome = .ok received → Took toHead maxBody taken false received

variable {toHead : Bool} {maxBody : Nat} {taken : Bytes} {r : ResponseReader}

theorem holds_new : Holds toHead maxBody [] (.new toHead maxBody) := .head .refl

theorem finish_eq_ok {head : ResponseHead} {headers : Headers} {framing : Framing} {body rest : Bytes}
    {received : Received} (h : r.finish head headers framing body rest = .ok received) :
    ∃ headers' content, decoded r.maxBody headers body = .ok (headers', content) ∧
      received = ⟨⟨head.code, head.version, headers', content⟩, framing == .untilClose || !rest.isEmpty⟩ := by
  unfold finish at h
  cases hd : decoded r.maxBody headers body with
  | error e =>
    rw [hd] at h
    cases h
  | ok found =>
    rw [hd] at h
    cases h
    exact ⟨found.1, found.2, rfl, rfl⟩

theorem advanceBody_follows {head : ResponseHead} {framing : Framing} {buffer : ReadBuffer} {awaited : Awaited}
    (h : Opens toHead taken head framing buffer.bytes) : Follows toHead maxBody taken
      (advanceBody ⟨toHead, maxBody, awaited, buffer⟩ head (Head.headers head.fields) framing) := by
  unfold advanceBody
  split
  · rintro received ⟨⟩
  · exact .body h
  · next body rest hbody =>
    intro received hreceived
    obtain ⟨headers, content, hcoding, rfl⟩ := finish_eq_ok hreceived
    have hends : (framing == .untilClose) = false := by
      rw [beq_eq_false_iff_ne]
      rintro rfl
      exact Framing.decode_untilClose_ne_some _ hbody
    rw [hends, Bool.false_or]
    exact .ended h hbody hcoding

/-- However many heads are passed over, the reader has taken what it holds. -/
theorem advanceHead_follows : ∀ (steps : Nat) {buffer : ReadBuffer}, Passes taken buffer.bytes →
    Follows toHead maxBody taken (advanceHead steps ⟨toHead, maxBody, .head, buffer⟩)
  | 0, _, h => .head h
  | steps + 1, buffer, h => by
    unfold advanceHead
    split
    · exact .head h
    · split
      · rintro received ⟨⟩
      · split
        · rintro received ⟨⟩
        · exact .head h
      · next head rest hread =>
        simp only []
        split
        · next hcode =>
          exact advanceHead_follows steps (h.trans (.interim hread hcode .refl))
        · next hcode =>
          split
          · rintro received ⟨⟩
          · next framing hframing =>
            exact advanceBody_follows ⟨⟨_, h, hread⟩, Bool.eq_false_iff.2 hcode, hframing⟩

/-- A read adds its bytes to those that have been taken. -/
theorem Holds.feed (h : Holds toHead maxBody taken r) (piece : Bytes) :
    Follows toHead maxBody (taken ++ piece) (r.feed piece) := by
  cases h with
  | head passed => exact advanceHead_follows _ (passed.append piece)
  | body opens => exact advanceBody_follows (opens.append piece)

/-- Only a body that lasts until the connection ends is complete when it does. -/
theorem Holds.close (h : Holds toHead maxBody taken r) {received : Received} (hr : r.close = .ok received) :
    Took toHead maxBody taken true received := by
  cases h with
  | head => cases hr
  | @body head framing buffer opens =>
    cases framing with
    | untilClose =>
      obtain ⟨headers, content, hcoding, rfl⟩ := finish_eq_ok hr
      exact .closed opens hcoding
    | empty => cases hr
    | length => cases hr
    | chunked => cases hr

/-- A connection that is not spent has brought a response whose end is that of the bytes. -/
theorem Took.whole {closed : Bool} {received : Received} (h : Took toHead maxBody taken closed received)
    (hs : received.spent = false) : ∃ head framing wire body, Opens toHead taken head framing wire ∧
      framing ≠ .untilClose ∧ framing.decode maxBody wire = .ok (some (body, [])) := by
  cases h with
  | @ended head framing wire body content rest headers opens found coding =>
    have hrest : rest = [] := by simpa using hs
    subst hrest
    refine ⟨head, framing, wire, body, opens, ?_, found⟩
    rintro rfl
    exact Framing.decode_untilClose_ne_some _ found
  | closed => cases hs

end ResponseReader

open ResponseReader

/-! ## What a server sends for a request -/

/-- The heads of interim responses, the head of the final response with its version and its code, and the bytes of its
body with the content that they bring. -/
structure WireResponse where
  interim : List RawHead
  head : RawHead
  version : Version
  code : Nat
  body : Bytes
  content : Bytes

namespace WireResponse

def bytes (w : WireResponse) : Bytes := w.interim.flatMap RawHead.bytes ++ (w.head.bytes ++ w.body)

def headers (w : WireResponse) : Headers := Head.headers (w.head.lines.map RawLine.field)

/-- Any number of interim responses and a final one that is framed as it should be for a request with this method. -/
structure Answers (method : Method) (w : WireResponse) : Prop where
  interim : ∀ h ∈ w.interim, ∃ version code, IsStatusLine h.first version code ∧ isInterim code = true
  status : IsStatusLine w.head.first w.version w.code
  final : isInterim w.code = false
  framed : ∃ closes, ProperBody method w.code w.headers closes w.body w.content

/-- A response that a client has is the final one. -/
def Brings (maxBody : Nat) (w : WireResponse) (response : ClientResponse) : Prop :=
  ∃ headers content, decoded maxBody w.headers w.content = .ok (headers, content) ∧
    response = ⟨w.code, w.version, headers, content⟩

variable {method : Method} {w : WireResponse} {toHead : Bool} {maxBody : Nat} {taken left rest : Bytes}

/-- A reader passes over the interim responses and no more, and comes to the final head. -/
theorem Answers.opened {after : Bytes} {head : ResponseHead} (hpassed : Passes taken after)
    (hread : Head.response after = .done head rest) (hfinal : isInterim head.code = false) :
    ∀ {w : WireResponse}, w.Answers method → taken ++ left = w.bytes → head.version = w.version ∧
      head.code = w.code ∧ Head.headers head.fields = w.headers ∧ rest ++ left = w.body := by
  induction hpassed with
  | @refl b =>
    intro w hw hsplit
    have hall := Head.response_incremental.done hread left
    rw [hsplit, bytes] at hall
    cases hinterim : w.interim with
    | nil =>
      rw [hinterim] at hall
      obtain ⟨hversion, hcode, hfields, hrest⟩ := Head.told_of_response hw.status hall
      exact ⟨hversion, hcode, by rw [headers, hfields], hrest⟩
    | cons i others =>
      obtain ⟨version, code, hstatus, hcode⟩ := hw.interim i (by rw [hinterim]; exact List.mem_cons_self)
      rw [hinterim, List.flatMap_cons, List.append_assoc] at hall
      rw [(Head.told_of_response hstatus hall).2.1, hcode] at hfinal
      cases hfinal
  | @interim b rest' after head' read code others ih =>
    intro w hw hsplit
    have hall := Head.response_incremental.done read left
    rw [hsplit, bytes] at hall
    cases hinterim : w.interim with
    | nil =>
      rw [hinterim] at hall
      rw [(Head.told_of_response hw.status hall).2.1, hw.final] at code
      cases code
    | cons i is =>
      obtain ⟨version, number, hstatus, -⟩ := hw.interim i (by rw [hinterim]; exact List.mem_cons_self)
      rw [hinterim, List.flatMap_cons, List.append_assoc] at hall
      obtain ⟨-, -, -, hrest⟩ := Head.told_of_response hstatus hall
      have hothers : ({ w with interim := is } : WireResponse).Answers method :=
        ⟨fun h hh => hw.interim h (by rw [hinterim]; exact List.mem_cons_of_mem _ hh), hw.status, hw.final, hw.framed⟩
      exact ih (w := { w with interim := is }) hread hothers hrest

/-- What is received from the bytes that a server sends is the final response, and none of them is left; if the
connection has to end for that, it must not end before all of them are taken. -/
theorem Answers.of_took {closed : Bool} {received : Received} (hw : w.Answers method) (hsplit : taken ++ left = w.bytes)
    (h : Took (method == .head) maxBody taken closed received) (hclosed : closed = true → left = []) :
    w.Brings maxBody received.response ∧ left = [] := by
  obtain ⟨closes, hbody⟩ := hw.framed
  cases h with
  | @ended head framing wire body content rest headers opens found coding =>
    obtain ⟨after, hpassed, hread⟩ := opens.passed
    obtain ⟨hversion, hcode, hheaders, hwire⟩ := Answers.opened hpassed hread opens.final hw hsplit
    have hframed := opens.framed
    rw [hcode, hheaders] at hframed
    obtain ⟨rfl, -, hleft⟩ := (hbody.fits hframed).decodes hwire found
    rw [hheaders] at coding
    exact ⟨⟨headers, content, coding, by rw [hversion, hcode]⟩, hleft⟩
  | @closed head wire content headers opens coding =>
    obtain ⟨after, hpassed, hread⟩ := opens.passed
    obtain ⟨hversion, hcode, hheaders, hwire⟩ := Answers.opened hpassed hread opens.final hw hsplit
    have hframed := opens.framed
    rw [hcode, hheaders] at hframed
    have hfits : Framing.Fits maxBody closes w.body w.content .untilClose := hbody.fits hframed
    rw [hclosed rfl, List.append_nil] at hwire
    rw [hheaders, hwire, ← (hfits.lasts rfl).1] at coding
    exact ⟨⟨headers, content, coding, by rw [hversion, hcode]⟩, hclosed rfl⟩

end WireResponse

end Hypertext
