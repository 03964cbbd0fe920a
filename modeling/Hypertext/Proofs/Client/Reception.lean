/-
Reading a response off a connection: a response that is all there in the end is received, however its bytes are cut
into reads, and no read is made after the one that completes it.

The proof is the invariant `Pending` of a reader that waits: it holds the first bytes of the head or of the body, and
some bytes of the response are still to come.
-/
import Hypertext.Client.Incoming
import Hypertext.Proofs.Message.Delimited

namespace Hypertext

namespace ResponseReader

variable {toHead : Bool} {maxBody : Nat}

/-! ## Reads -/

/-- Makes one read after another until the reader is done: its outcome, and the reads that are not made. -/
def consume : List Bytes → ResponseReader → Option (Except ClientError Received × List Bytes)
  | [], _ => none
  | read :: later, r =>
    match r.feed read with
    | .done outcome => some (outcome, later)
    | .waiting next => consume later next

theorem consume_of_done {r : ResponseReader} {read : Bytes} {outcome : Except ClientError Received}
    (h : r.feed read = .done outcome) (later : List Bytes) : consume (read :: later) r = some (outcome, later) := by
  rw [consume, h]

theorem consume_of_waiting {r next : ResponseReader} {read : Bytes} (h : r.feed read = .waiting next)
    (later : List Bytes) : consume (read :: later) r = consume later next := by
  rw [consume, h]

/-- The reads that one piece becomes, since the buffer has only so much room at a time. -/
theorem feedPiece_eq_reads : ∀ (steps : Nat) (piece : Bytes) (r : ResponseReader), piece.length ≤ steps →
    ∃ reads : List Bytes, reads.flatten = piece ∧ ∀ later,
      match r.feedPiece steps piece with
      | .done outcome => ∃ unread, consume (reads ++ later) r = some (outcome, unread)
      | .waiting next => consume (reads ++ later) r = consume later next
  | 0, piece, r, hle => by
    obtain rfl : piece = [] := List.eq_nil_of_length_eq_zero (Nat.le_zero.1 hle)
    exact ⟨[], rfl, fun _ => rfl⟩
  | k + 1, [], r, _ => ⟨[], rfl, fun _ => rfl⟩
  | k + 1, b :: bs, r, hle => by
    have hroom := r.buffer.room_pos
    rw [feedPiece, if_neg (by simp)]
    -- the first read takes what there is room for, and there is room for at least one byte
    cases hfeed : r.feed ((b :: bs).take r.buffer.room) with
    | done outcome =>
      refine ⟨[(b :: bs).take r.buffer.room, (b :: bs).drop r.buffer.room], by simp, fun later => ?_⟩
      exact ⟨_, consume_of_done hfeed _⟩
    | waiting next =>
      obtain ⟨reads, hflat, hreads⟩ := feedPiece_eq_reads k ((b :: bs).drop r.buffer.room) next
        (by rw [List.length_drop]; omega)
      refine ⟨(b :: bs).take r.buffer.room :: reads, by rw [List.flatten_cons, hflat, List.take_append_drop], ?_⟩
      intro later
      rw [List.cons_append, consume_of_waiting hfeed]
      exact hreads later

/-- Reading from pieces is reading from some cut of the same bytes. -/
theorem readAll_eq_consume (ending : Ending) : ∀ (pieces : List Bytes) (r : ResponseReader),
    ∃ reads : List Bytes, reads.flatten = pieces.flatten ∧ ∀ outcome unread,
      consume reads r = some (outcome, unread) → r.readAll ending pieces = outcome
  | [], r => ⟨[], rfl, fun _ _ h => by cases h⟩
  | piece :: pieces, r => by
    obtain ⟨reads, hflat, hreads⟩ := feedPiece_eq_reads piece.length piece r (Nat.le_refl _)
    rw [readAll]
    cases hfeed : r.feedPiece piece.length piece with
    | done outcome =>
      refine ⟨reads ++ pieces, by rw [List.flatten_append, hflat, List.flatten_cons], fun outcome' unread h => ?_⟩
      have hdone := hreads pieces
      rw [hfeed] at hdone
      obtain ⟨unread', hdone⟩ := hdone
      rw [hdone] at h
      cases h
      rfl
    | waiting next =>
      obtain ⟨reads', hflat', hreads'⟩ := readAll_eq_consume ending pieces next
      refine ⟨reads ++ reads', by rw [List.flatten_append, hflat, hflat', List.flatten_cons], fun outcome unread h => ?_⟩
      have hwait := hreads reads'
      rw [hfeed] at hwait
      exact hreads' outcome unread (hwait ▸ h)

end ResponseReader

open ResponseReader

/-! ## Deliveries -/

/-- The bytes of one response, and what a reader is to make of them: the head that is read, the end of the body that
is found, and the fields and the body that are left when the coding is taken off. -/
structure Delivery (toHead : Bool) (maxBody : Nat) where
  head : Bytes
  body : Bytes
  parsed : ResponseHead
  framing : Framing
  framed : Bytes
  headers : Headers
  content : Bytes
  head_eq : Head.response head = .done parsed []
  head_le : head.length ≤ maxHead
  code_eq : isInterim parsed.code = false
  framing_eq : Framing.forResponse parsed.code toHead (Head.headers parsed.fields) = .ok framing
  body_eq : framing.decode maxBody body = .ok (some (framed, []))
  body_le : body.length ≤ maxBody
  content_eq : decoded maxBody (Head.headers parsed.fields) framed = .ok (headers, content)

namespace Delivery

variable {toHead : Bool} {maxBody : Nat} (d : Delivery toHead maxBody)

/-- The response that is received. -/
def response : ClientResponse := ⟨d.parsed.code, d.parsed.version, d.headers, d.content⟩

/-- The reader when the head has been taken. -/
def bodyReader (buffer : ReadBuffer) : ResponseReader :=
  ⟨toHead, maxBody, .body d.parsed (Head.headers d.parsed.fields) d.framing, buffer⟩

theorem head_ne_nil : d.head ≠ [] := by
  intro h
  have hnone := d.head_eq
  rw [h] at hnone
  cases hnone

theorem response_append (rest : Bytes) : Head.response (d.head ++ rest) = .done d.parsed rest :=
  Head.response_incremental.done d.head_eq rest

theorem decode_append (rest : Bytes) : d.framing.decode maxBody (d.body ++ rest) = .ok (some (d.framed, rest)) :=
  Framing.decode_append d.body_eq rest

/-- A part of the head is no head yet. -/
theorem response_part {part left : Bytes} (h : part ++ left = d.head) (hleft : left ≠ []) :
    Head.response part = .more := by
  have hall := d.head_eq
  rw [← h] at hall
  cases hpart : Head.response part with
  | more => rfl
  | bad e =>
    rw [Head.response_incremental.bad hpart left] at hall
    cases hall
  | done parsed rest =>
    rw [Head.response_incremental.done hpart left] at hall
    injection hall with _ hrest
    exact absurd (List.append_eq_nil_iff.1 hrest).2 hleft

/-- A part of the body is no body yet. -/
theorem decode_part {part left : Bytes} (h : part ++ left = d.body) (hleft : left ≠ []) :
    d.framing.decode maxBody part = .ok none := by
  have hall := d.body_eq
  have hle := d.body_le
  rw [← h] at hall
  rw [← h, List.length_append] at hle
  cases hpart : d.framing.decode maxBody part with
  | error e =>
    rw [Framing.decode_error_append (by omega) hpart left] at hall
    cases hall
  | ok found =>
    cases found with
    | none => rfl
    | some taken =>
      -- with the rest of the body there would be bytes left behind it
      rw [Framing.decode_append hpart left] at hall
      simp only [Except.ok.injEq, Option.some.injEq, Prod.mk.injEq] at hall
      exact absurd (List.append_eq_nil_iff.1 hall.2).2 hleft

/-! ## What a reader makes of its buffer -/

theorem finish_eq (r : ResponseReader) (hmax : r.maxBody = maxBody) (rest : Bytes) :
    r.finish d.parsed (Head.headers d.parsed.fields) d.framing d.framed rest = .ok ⟨d.response, !rest.isEmpty⟩ := by
  have hends : (d.framing == .untilClose) = false := by
    have hall := d.body_eq
    cases hf : d.framing with
    | untilClose =>
      rw [hf] at hall
      exact absurd hall (Framing.decode_untilClose_ne_some _)
    | _ => rfl
  rw [finish, hmax, d.content_eq, hends, Bool.false_or]
  rfl

/-- All of the body is there. -/
theorem advanceBody_of_all {r : ResponseReader} {seen : Bytes} (hmax : r.maxBody = maxBody)
    (h : r.buffer.bytes = d.body ++ seen) : r.advanceBody d.parsed (Head.headers d.parsed.fields) d.framing =
      .done (.ok ⟨d.response, !seen.isEmpty⟩) := by
  rw [advanceBody, hmax, h, d.decode_append]
  exact congrArg ReadState.done (d.finish_eq r hmax seen)

/-- Some of the body is there. -/
theorem advanceBody_of_part {r : ResponseReader} {left : Bytes} (hhead : r.toHead = toHead)
    (hmax : r.maxBody = maxBody) (h : r.buffer.bytes ++ left = d.body) (hleft : left ≠ []) :
    r.advanceBody d.parsed (Head.headers d.parsed.fields) d.framing = .waiting (d.bodyReader r.buffer) := by
  subst hhead hmax
  rw [advanceBody, d.decode_part h hleft]
  rfl

/-- Some of the head is there. -/
theorem advanceHead_of_part {r : ResponseReader} {left : Bytes} (h : r.buffer.bytes ++ left = d.head)
    (hleft : left ≠ []) (steps : Nat) : advanceHead steps r = .waiting r := by
  have hle := d.head_le
  rw [← h, List.length_append] at hle
  cases steps with
  | zero => rfl
  | succ k =>
    rw [advanceHead, d.response_part h hleft]
    simp only []
    rw [if_neg (by omega : ¬ maxHead < r.buffer.bytes.length), ite_self]

/-- All of the head is there: what is wanted is the body. -/
theorem advanceHead_of_all {r : ResponseReader} {rest : Bytes} (hhead : r.toHead = toHead)
    (h : r.buffer.bytes = d.head ++ rest) (k : Nat) : advanceHead (k + 1) r =
      ({ r with buffer := r.buffer.keep rest }).advanceBody d.parsed (Head.headers d.parsed.fields) d.framing := by
  subst hhead
  have hsome : ¬ r.buffer.bytes.isEmpty = true := by
    rw [h, List.isEmpty_iff, List.append_eq_nil_iff]
    exact fun hnil => d.head_ne_nil hnil.1
  have hread : Head.response r.buffer.bytes = .done d.parsed rest := by rw [h, d.response_append]
  rw [advanceHead, if_neg hsome, hread]
  simp only [d.code_eq, d.framing_eq, if_neg Bool.false_ne_true]

/-! ## The invariant -/

/-- The reader holds the first bytes of the head or of the body, and these bytes of the response are still to come. -/
inductive Pending : ResponseReader → Bytes → Prop
  | head {buffer : ReadBuffer} {left : Bytes} (held : buffer.bytes ++ left = d.head) (some : left ≠ []) :
      Pending ⟨toHead, maxBody, .head, buffer⟩ (left ++ d.body)
  | body {buffer : ReadBuffer} {left : Bytes} (held : buffer.bytes ++ left = d.body) (some : left ≠ []) :
      Pending (d.bodyReader buffer) left

theorem pending_new : d.Pending (ResponseReader.new toHead maxBody) (d.head ++ d.body) := .head rfl d.head_ne_nil

theorem Pending.ne_nil {d : Delivery toHead maxBody} {r : ResponseReader} {left : Bytes} (h : d.Pending r left) :
    left ≠ [] := by
  cases h with
  | head _ hleft => exact fun hnil => hleft (List.append_eq_nil_iff.1 hnil).1
  | body _ hleft => exact hleft

/-- What a reader has become when `rest` is what it has not read of the response and of what follows it: it waits for
the rest of the response, or has the response and some of what follows. -/
def Reached (state : ReadState) (rest following : Bytes) : Prop :=
  (∃ next left, state = .waiting next ∧ d.Pending next left ∧ rest = left ++ following) ∨
    ∃ seen, state = .done (.ok ⟨d.response, !seen.isEmpty⟩) ∧ following = seen ++ rest

theorem advanceBody_reached {r : ResponseReader} {rest following : Bytes} (hhead : r.toHead = toHead)
    (hmax : r.maxBody = maxBody) (h : r.buffer.bytes ++ rest = d.body ++ following) :
    d.Reached (r.advanceBody d.parsed (Head.headers d.parsed.fields) d.framing) rest following := by
  -- the buffer ends within the body, or after it
  rcases List.append_eq_append_iff.1 h with ⟨left, hbody, hrest⟩ | ⟨seen, hbuffer, hfollowing⟩
  · by_cases hleft : left = []
    · subst hleft
      exact .inr ⟨[], d.advanceBody_of_all hmax (by rw [hbody, List.append_nil, List.append_nil]), hrest.symm⟩
    · exact .inl ⟨_, left, d.advanceBody_of_part hhead hmax hbody.symm hleft, .body hbody.symm hleft, hrest⟩
  · exact .inr ⟨seen, d.advanceBody_of_all hmax hbuffer, hfollowing⟩

theorem advanceHead_reached {buffer : ReadBuffer} {rest following : Bytes}
    (h : buffer.bytes ++ rest = d.head ++ (d.body ++ following)) (k : Nat) :
    d.Reached (advanceHead (k + 1) ⟨toHead, maxBody, .head, buffer⟩) rest following := by
  -- once all of the head is there the body is looked for in what was taken with it
  have hall : ∀ taken, buffer.bytes = d.head ++ taken → taken ++ rest = d.body ++ following →
      d.Reached (advanceHead (k + 1) ⟨toHead, maxBody, .head, buffer⟩) rest following := by
    intro taken hbuffer htaken
    rw [d.advanceHead_of_all rfl hbuffer]
    exact d.advanceBody_reached rfl rfl htaken
  rcases List.append_eq_append_iff.1 h with ⟨left, hhead, hrest⟩ | ⟨taken, hbuffer, htaken⟩
  · by_cases hleft : left = []
    · subst hleft
      exact hall [] (by rw [hhead, List.append_nil, List.append_nil]) hrest
    · refine .inl ⟨_, left ++ d.body, d.advanceHead_of_part hhead.symm hleft _, .head hhead.symm hleft, ?_⟩
      rw [hrest, List.append_assoc]
  · exact hall taken hbuffer htaken.symm

/-- One read keeps the invariant or completes the response. -/
theorem Pending.feed {d : Delivery toHead maxBody} {r : ResponseReader} {left read rest following : Bytes}
    (h : d.Pending r left) (hread : read ++ rest = left ++ following) : d.Reached (r.feed read) rest following := by
  cases h with
  | @head buffer left held _ =>
    refine d.advanceHead_reached ?_ _
    rw [ReadBuffer.bytes_append, List.append_assoc, hread, ← held, List.append_assoc, List.append_assoc]
  | @body buffer left held _ =>
    refine d.advanceBody_reached rfl rfl ?_
    show (buffer.append read).bytes ++ rest = _
    rw [ReadBuffer.bytes_append, List.append_assoc, hread, ← held, List.append_assoc]

/-! ## Whole runs -/

/-- A reader that waits for the rest of a response comes to it, and to nothing that was not read with it. -/
theorem Pending.consume {d : Delivery toHead maxBody} {following : Bytes} : ∀ {reads : List Bytes} {r : ResponseReader}
    {left : Bytes}, d.Pending r left → reads.flatten = left ++ following → ∃ seen unread,
      ResponseReader.consume reads r = some (.ok ⟨d.response, !seen.isEmpty⟩, unread) ∧
        following = seen ++ unread.flatten
  | [], r, left, h, hflat => absurd (List.append_eq_nil_iff.1 hflat.symm).1 h.ne_nil
  | read :: later, r, left, h, hflat => by
    rcases h.feed hflat with ⟨next, left', hfeed, hnext, hrest⟩ | ⟨seen, hfeed, hfollowing⟩
    · rw [consume_of_waiting hfeed]
      exact hnext.consume hrest
    · exact ⟨seen, later, consume_of_done hfeed later, hfollowing⟩

/-- However the bytes of a response and what follows it are cut into reads, the response is received; the connection
is spent only if some of what follows was read with it. -/
theorem consume_new {reads : List Bytes} {following : Bytes}
    (hflat : reads.flatten = d.head ++ (d.body ++ following)) : ∃ seen unread,
      ResponseReader.consume reads (ResponseReader.new toHead maxBody) =
          some (.ok ⟨d.response, !seen.isEmpty⟩, unread) ∧ following = seen ++ unread.flatten :=
  d.pending_new.consume (by rw [hflat, List.append_assoc])

theorem read_eq {pieces : List Bytes} {following : Bytes} (hflat : pieces.flatten = d.head ++ (d.body ++ following))
    (ending : Ending) : ∃ spent, ClientResponse.read toHead maxBody pieces ending = .ok ⟨d.response, spent⟩ ∧
      (spent = true → following ≠ []) := by
  obtain ⟨reads, hreads, hall⟩ := readAll_eq_consume ending pieces (ResponseReader.new toHead maxBody)
  obtain ⟨seen, unread, hdone, hfollowing⟩ := d.consume_new (hreads.trans hflat)
  refine ⟨!seen.isEmpty, hall _ _ hdone, ?_⟩
  rintro hseen rfl
  rw [(List.append_eq_nil_iff.1 hfollowing.symm).1] at hseen
  cases hseen

end Delivery

end Hypertext
