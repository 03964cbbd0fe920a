/-
The bounds of a reader of responses. Whenever it waits for a read it holds no more bytes than a head or a body may have,
and a body that is received is within the limit, whether its end is announced by a length or by chunks or is that of the
connection, and whether it comes as it is or compressed.

The invariant is `Bounded`, by what the reader waits for; each feed keeps it, so that every reader that waits after some
reads has it.
-/
import Hypertext.Proofs.Client.Intake
import Hypertext.Proofs.Client.Reads
import Hypertext.Proofs.Gzip.Limit
import Hypertext.Proofs.Message.BodySize

namespace Hypertext

/-! ## Bodies -/

/-- The data of a chunked body is shorter than the body by at least the ends of its last two lines. -/
theorem Chunked.Wire.length_content_le (w : Chunked.Wire) : w.content.length + 4 ≤ w.bytes.length := by
  have hdata : ∀ chunks : List Chunk, (chunks.flatMap Chunk.data).length ≤ (chunks.flatMap Chunk.bytes).length := by
    intro chunks
    induction chunks with
    | nil => exact Nat.le_refl _
    | cons c chunks ih =>
      simp only [List.flatMap_cons, List.length_append, Chunk.bytes]
      omega
  have hchunks := hdata w.chunks
  simp only [content, bytes, SizeLine.bytes, List.length_append, Bytes.crlf, List.length_cons, List.length_nil]
  omega

/-- A body that is found is within the limit. -/
theorem Framing.length_le_of_decode {f : Framing} {limit : Nat} {s body rest : Bytes}
    (h : f.decode limit s = .ok (some (body, rest))) : body.length ≤ limit := by
  cases f with
  | empty =>
    cases h
    exact Nat.zero_le _
  | length n =>
    obtain ⟨hle, -, rfl, -⟩ := decode_length_eq_some_iff.1 h
    exact Nat.le_trans (List.length_take_le _ _) hle
  | chunked =>
    obtain ⟨w, -, rfl, hsize⟩ := decode_chunked_iff.1 h
    have hcontent := w.length_content_le
    omega
  | untilClose => exact absurd h (decode_untilClose_ne_some _)

namespace ResponseReader

variable {toHead : Bool} {maxBody : Nat} {first r next : ResponseReader} {head : ResponseHead} {headers : Headers}
  {framing : Framing} {body rest bytes : Bytes} {reads : List Bytes} {received : Received} {ending : Ending}

/-! ## Readers that wait -/

/-- What a reader holds is no more than a head may have, or no more than a body may have. -/
def Bounded (r : ResponseReader) : Prop :=
  match r.awaited with
  | .head => r.buffer.bytes.length ≤ maxHead
  | .body .. => r.buffer.bytes.length ≤ r.maxBody

/-- A reader waits within its bounds, or it is done with a body that is within the limit. -/
def BoundedState (maxBody : Nat) : ReadState → Prop
  | .waiting next => next.maxBody = maxBody ∧ next.Bounded
  | .done outcome => ∀ received, outcome = .ok received → received.response.body.length ≤ maxBody

/-- Decompression keeps the limit. -/
theorem length_le_of_decoded {headers' : Headers} {content : Bytes}
    (h : decoded maxBody headers body = .ok (headers', content)) (hbody : body.length ≤ maxBody) :
    content.length ≤ maxBody := by
  unfold decoded at h
  split at h
  · split at h
    · next hgunzip =>
      cases h
      exact Gzip.length_le_of_gunzip hgunzip
    · cases h
  · cases h
    exact hbody

theorem length_le_of_finish (h : r.finish head headers framing body rest = .ok received)
    (hbody : body.length ≤ r.maxBody) : received.response.body.length ≤ r.maxBody := by
  obtain ⟨headers', content, hdecoded, rfl⟩ := finish_eq_ok h
  exact length_le_of_decoded hdecoded hbody

theorem advanceBody_bounded (r : ResponseReader) (head : ResponseHead) (headers : Headers) (framing : Framing) :
    BoundedState r.maxBody (r.advanceBody head headers framing) := by
  unfold advanceBody
  split
  · rintro received ⟨⟩
  · next hnone => exact ⟨rfl, Framing.decode_eq_none hnone⟩
  · next hbody => exact fun received hreceived => length_le_of_finish hreceived (Framing.length_le_of_decode hbody)

/-- Each head that is passed over takes at least one byte, so that the steps suffice. -/
theorem advanceHead_bounded : ∀ (steps : Nat) (r : ResponseReader), r.awaited = .head →
    r.buffer.bytes.length < steps → BoundedState r.maxBody (advanceHead steps r)
  | 0, _, _, hsteps => absurd hsteps (Nat.not_lt_zero _)
  | steps + 1, r, hawaited, hsteps => by
    have hwait : r.buffer.bytes.length ≤ maxHead → BoundedState r.maxBody (.waiting r) := by
      intro hle
      refine ⟨rfl, ?_⟩
      rw [Bounded, hawaited]
      exact hle
    unfold advanceHead
    split
    · next hempty =>
      refine hwait ?_
      rw [List.isEmpty_iff.1 hempty]
      exact Nat.zero_le _
    · split
      · rintro received ⟨⟩
      · split
        · rintro received ⟨⟩
        · next hle => exact hwait (Nat.le_of_not_lt hle)
      · next head rest hread =>
        have hlt := Head.response_consumes _ _ _ hread
        simp only
        split
        · refine advanceHead_bounded steps _ hawaited ?_
          simp only [ReadBuffer.bytes_keep]
          omega
        · split
          · rintro received ⟨⟩
          · exact advanceBody_bounded _ _ _ _

theorem feed_bounded (read : Bytes) (r : ResponseReader) : BoundedState r.maxBody (r.feed read) := by
  obtain ⟨toHead, maxBody, awaited, buffer⟩ := r
  cases awaited with
  | head => exact advanceHead_bounded _ _ rfl (Nat.lt_succ_self _)
  | body head headers framing => exact advanceBody_bounded _ _ _ _

theorem Waits.bounded (h : Waits first reads r) (hfirst : first.Bounded) : r.maxBody = first.maxBody ∧ r.Bounded := by
  induction h with
  | start => exact ⟨rfl, hfirst⟩
  | @read reads r next read before some fits waits ih =>
    have hfeed := feed_bounded read r
    rw [waits] at hfeed
    exact ⟨hfeed.1.trans ih.1, hfeed.2⟩

/-- What is held when the connection ends was within the limit before. -/
theorem Bounded.of_close (hr : r.Bounded) (h : r.close = .ok received) :
    received.response.body.length ≤ r.maxBody := by
  unfold close at h
  split at h
  · cases h
  · next hawaited =>
    rw [Bounded, hawaited] at hr
    exact length_le_of_finish h hr
  · cases h

theorem Comes.bounded (h : Comes first ending bytes (.ok received)) (hfirst : first.Bounded) :
    received.response.body.length ≤ first.maxBody := by
  generalize houtcome : Except.ok received = outcome at h
  cases h with
  | @read reads r read _ before part fits done =>
    have hfeed := feed_bounded read r
    rw [done, (before.bounded hfirst).1] at hfeed
    exact hfeed received houtcome.symm
  | @ended reads r before all =>
    obtain ⟨hmax, hr⟩ := before.bounded hfirst
    cases ending with
    | closed => exact hmax ▸ hr.of_close houtcome.symm
    | failed text => cases houtcome
    | overdue limit => cases houtcome

/-! ## Main result -/

/-- However the bytes of a connection are cut into reads: a reader that waits for a head holds no more bytes than a head
may have, and one that waits for a body no more than a body may have. Reading from pieces is made of such reads, and the
body of a response that is received is within the limit. -/
theorem bounded_of_reads (toHead : Bool) (maxBody : Nat) :
    (∀ reads r, Waits (new toHead maxBody) reads r → r.buffer.bytes.length ≤ max maxHead maxBody ∧
      (r.awaited = .head → r.buffer.bytes.length ≤ maxHead) ∧
      (r.awaited ≠ .head → r.buffer.bytes.length ≤ maxBody)) ∧
    ∀ pieces ending,
      Comes (new toHead maxBody) ending pieces.flatten (ClientResponse.read toHead maxBody pieces ending) ∧
      ∀ received, ClientResponse.read toHead maxBody pieces ending = .ok received →
        received.response.body.length ≤ maxBody := by
  have hnew : (new toHead maxBody).Bounded := Nat.zero_le _
  constructor
  · intro reads r h
    obtain ⟨hmax, hr⟩ := h.bounded hnew
    unfold Bounded at hr
    cases hawaited : r.awaited with
    | head =>
      rw [hawaited] at hr
      exact ⟨Nat.le_trans hr (Nat.le_max_left _ _), fun _ => hr, fun hne => absurd rfl hne⟩
    | body head headers framing =>
      rw [hawaited, hmax] at hr
      exact ⟨Nat.le_trans hr (Nat.le_max_right _ _), nofun, fun _ => hr⟩
  · intro pieces ending
    have hcomes := comes_read toHead maxBody pieces ending
    refine ⟨hcomes, fun received hread => ?_⟩
    rw [hread] at hcomes
    exact hcomes.bounded hnew

/-- A body that lasts until the connection ends fills the limit: it is held while its end is waited for, and received. -/
theorem bounded_until_close :
    let read := Bytes.ofText "HTTP/1.1 100 Continue\r\n\r\nHTTP/1.1 200 OK\r\n\r\nabc"
    let received : Received := ⟨⟨200, .http11, .empty, Bytes.ofText "abc"⟩, true⟩
    (∃ r, Waits (new false 3) [read] r ∧ r.awaited ≠ .head ∧ r.buffer.bytes = Bytes.ofText "abc" ∧
      r.buffer.bytes.length ≤ 3) ∧
    ClientResponse.read false 3 [read] .closed = .ok received ∧ received.response.body.length ≤ 3 := by
  intro read received
  have hfeed : ∃ r, (new false 3).feed read = .waiting r ∧ r.awaited = .body ⟨.http11, 200, []⟩ .empty .untilClose ∧
      r.buffer.bytes = Bytes.ofText "abc" := ⟨_, rfl, rfl, rfl⟩
  obtain ⟨r, hfeed, hawaited, hbytes⟩ := hfeed
  have hwaits : Waits (new false 3) [read] r := Waits.start.read (by decide) (by decide) hfeed
  have hbody : r.awaited ≠ .head := by
    rw [hawaited]
    nofun
  have hread : ClientResponse.read false 3 [read] .closed = .ok received := rfl
  exact ⟨⟨r, hwaits, hbody, hbytes, ((bounded_of_reads false 3).1 _ _ hwaits).2.2 hbody⟩, hread,
    ((bounded_of_reads false 3).2 _ _).2 _ hread⟩

end ResponseReader

end Hypertext
