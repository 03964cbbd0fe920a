/-
Conversations: what a connection makes of all the bytes that its peer sends. This is a function of the bytes alone;
how they arrive and when does not enter.
-/
import Hypertext.Proofs.Server.Admission
import Hypertext.Server.Connection

namespace Hypertext

/-- The answer to a request while no shutdown has begun. -/
def ConnectionRules.answer (rules : ConnectionRules) (request : Request) : Answer :=
  (Exchange.ofRequest rules.compress rules.encode request).answer true (rules.dispatcher.dispatch request)

/-- Without routes no handler is needed. -/
theorem Dispatcher.plan_of_empty (limit : Duration) (r : Request) :
    Dispatcher.plan ⟨.empty, limit⟩ r = .answer (.error (.notFound r.path)) := by
  simp [plan, Table.find, Table.first?, Table.allowed, Table.allowedParts, Table.empty]

/-- What a server without routes answers, whether it keeps the connection or closes it. -/
def Answer.noRoute (keep : Bool) : Answer where
  bytes := Bytes.ofText ("HTTP/1.1 404 Not Found\r\nContent-Type: application/json\r\nConnection: " ++
    (if keep then "keep-alive" else "close") ++
    "\r\nContent-Length: 34\r\n\r\n\x7b\"status\":404,\"error\":\"Not Found\"\x7d")
  sequel := if keep then .goOn else .close .notKeepAlive

/-- A server without routes answers so unless the answer has no body. -/
theorem ConnectionRules.answer_of_empty (limit : Duration) (idleTimeout maxRequestBytes : Nat)
    (encode : Bytes → Bytes) {request : Request} (h : request.method ≠ .head) :
    ConnectionRules.answer ⟨⟨.empty, limit⟩, idleTimeout, maxRequestBytes, false, encode⟩ request =
      .noRoute request.isKeepAlive := by
  have hencoded : ∀ keep, Response.encode false { (Exchange.settle (.error (.notFound ""))).1 with keepAlive := keep } =
      (Answer.noRoute keep).bytes := by decide +kernel
  have hhead : (request.method == .head) = false := beq_eq_false_iff_ne.2 h
  rw [answer, Dispatcher.dispatch, Dispatcher.plan_of_empty, Exchange.ofRequest, hhead]
  cases request.isKeepAlive with
  | true => exact congrArg (Answer.mk · .goOn) (hencoded true)
  | false => exact congrArg (Answer.mk · (.close .notKeepAlive)) (hencoded false)

/-- An answer closes a connection for want of a reason to keep it, or because the handler has been given up. -/
theorem Exchange.answer_close {x : Exchange} {running : Bool} {outcome : Except DispatchError Response}
    {reason : CloseReason} (h : (x.answer running outcome).sequel = .close reason) :
    reason = .notKeepAlive ∨ reason = .handlerTimeout ∨ reason = .handlerPanicked := by
  simp only [answer, sequel] at h
  cases hfatal : (settle outcome).2 with
  | none =>
    rw [hfatal] at h
    dsimp only at h
    split at h
    · cases h
    · split at h
      · cases h
      · cases h
        exact .inl rfl
  | some other =>
    rw [hfatal] at h
    cases h
    cases outcome with
    | ok response => cases hfatal
    | error e => cases e <;> cases hfatal <;> simp

/-- While no shutdown has begun a connection goes on after an answer, or it ends for a reason of that answer. -/
theorem Exchange.answer_sequel (x : Exchange) (outcome : Except DispatchError Response) :
    (x.answer true outcome).sequel = .goOn ∨
      ∃ reason, (x.answer true outcome).sequel = .close reason ∧ reason ≠ .idleTimeout := by
  cases hsequel : (x.answer true outcome).sequel with
  | goOn => exact .inl rfl
  | drain =>
    simp only [answer, sequel] at hsequel
    cases hfatal : (settle outcome).2 with
    | none =>
      rw [hfatal] at hsequel
      dsimp only at hsequel
      split at hsequel
      · contradiction
      · split at hsequel <;> cases hsequel
    | some reason =>
      rw [hfatal] at hsequel
      cases hsequel
  | close reason =>
    refine .inr ⟨reason, rfl, ?_⟩
    rcases answer_close hsequel with rfl | rfl | rfl <;> nofun

/-- What comes of the bytes that a peer sends: the requests that are dispatched, the bytes that are written, and why
the connection ends. -/
structure Conversation where
  requests : List Request
  written : Bytes
  reason : CloseReason
  deriving DecidableEq, Repr

namespace Conversation

/-- Nothing happens any more. -/
def ended (reason : CloseReason) : Conversation := ⟨[], [], reason⟩

/-- A conversation with what came before it. -/
def after (requests : List Request) (written : Bytes) (c : Conversation) : Conversation where
  requests := requests ++ c.requests
  written := written ++ c.written
  reason := c.reason

@[simp]
theorem after_reason (requests : List Request) (written : Bytes) (c : Conversation) :
    (c.after requests written).reason = c.reason := rfl

@[simp]
theorem after_after (requests requests' : List Request) (written written' : Bytes) (c : Conversation) :
    (c.after requests written).after requests' written' = c.after (requests' ++ requests) (written' ++ written) := by
  simp [after]

/-- The conversation that the bytes of a peer lead to: one request after another is taken off them. -/
def ofBytes (rules : ConnectionRules) (bytes : Bytes) : Conversation :=
  match _h : Admission.ofBuffer rules.maxRequestBytes bytes with
  | .wait => ended .peerClosed
  | .refuse status reason => (ended reason).after [] (Exchange.refusal status status.reason)
  | .serve request rest =>
    match (rules.answer request).sequel with
    | .goOn => (ofBytes rules rest).after [request] (rules.answer request).bytes
    | .drain => (ended .drained).after [request] (rules.answer request).bytes
    | .close reason => (ended reason).after [request] (rules.answer request).bytes
termination_by bytes.length
decreasing_by exact Admission.serve_lt _h

/-- What comes after an answer, given the bytes that the peer has sent after the request. -/
def ofSequel (rules : ConnectionRules) (rest : Bytes) : Sequel → Conversation
  | .goOn => ofBytes rules rest
  | .drain => ended .drained
  | .close reason => ended reason

/-- An answer and what comes after it. -/
def ofAnswer (rules : ConnectionRules) (rest : Bytes) (answer : Answer) : Conversation :=
  (ofSequel rules rest answer.sequel).after [] answer.bytes

variable {rules : ConnectionRules} {bytes rest : Bytes} {request : Request} {status : Status} {reason : CloseReason}

theorem ofBytes_of_wait (h : Admission.ofBuffer rules.maxRequestBytes bytes = .wait) :
    ofBytes rules bytes = ended .peerClosed := by
  rw [ofBytes]
  split <;> simp_all

theorem ofBytes_of_refuse (h : Admission.ofBuffer rules.maxRequestBytes bytes = .refuse status reason) :
    ofBytes rules bytes = (ended reason).after [] (Exchange.refusal status status.reason) := by
  rw [ofBytes]
  split <;> simp_all

theorem ofBytes_of_serve (h : Admission.ofBuffer rules.maxRequestBytes bytes = .serve request rest) :
    ofBytes rules bytes = (ofAnswer rules rest (rules.answer request)).after [request] [] := by
  rw [ofBytes]
  split
  · simp_all
  · simp_all
  · next request' rest' h' =>
    rw [h] at h'
    cases h'
    unfold ofAnswer ofSequel
    split <;> simp_all

/-- A conversation that all bytes of the peer are there for does not end because none have come for long. -/
theorem reason_ne_idleTimeout (rules : ConnectionRules) (bytes : Bytes) :
    (ofBytes rules bytes).reason ≠ .idleTimeout := by
  cases h : Admission.ofBuffer rules.maxRequestBytes bytes with
  | wait => rw [ofBytes_of_wait h]; simp [ended]
  | refuse status reason =>
    rw [ofBytes_of_refuse h]
    simp only [after_reason, ended]
    rintro rfl
    exact Admission.refuse_ne_idleTimeout h
  | serve request rest =>
    rw [ofBytes_of_serve h]
    simp only [after_reason, ofAnswer]
    rcases Exchange.answer_sequel (Exchange.ofRequest rules.compress rules.encode request)
      (rules.dispatcher.dispatch request) with hs | ⟨reason, hs, hne⟩
    · rw [ConnectionRules.answer, hs]
      exact reason_ne_idleTimeout rules rest
    · rw [ConnectionRules.answer, hs]
      exact hne
termination_by bytes.length
decreasing_by exact Admission.serve_lt h

/-- The requests that are dispatched are the first ones of the bytes, each of them once. -/
theorem requests_prefix (rules : ConnectionRules) (bytes : Bytes) :
    (ofBytes rules bytes).requests <+: Request.sequence bytes := by
  cases h : Admission.ofBuffer rules.maxRequestBytes bytes with
  | wait => rw [ofBytes_of_wait h]; exact List.nil_prefix
  | refuse status reason => rw [ofBytes_of_refuse h]; exact List.nil_prefix
  | serve request rest =>
    rw [ofBytes_of_serve h, Request.sequence_of_front? (Admission.front?_of_serve h)]
    have hrest : (ofSequel rules rest (rules.answer request).sequel).requests <+: Request.sequence rest := by
      unfold ofSequel
      split
      · exact requests_prefix rules rest
      · exact List.nil_prefix
      · exact List.nil_prefix
    exact (List.prefix_append_right_inj [request]).2 hrest
termination_by bytes.length
decreasing_by exact Admission.serve_lt h

end Conversation

end Hypertext
