/-
Which requests with HEAD are answered without a body: those that are dispatched, and no others. Requests that are
refused, because they cannot be read, are too large or come when a shutdown has begun, are told so with a body, whatever
their method is.
-/
import Hypertext.Proofs.Server.SizeLimit

namespace Hypertext

/-! ## Heads -/

/-- The bytes of the head of a response, and nothing after it. -/
def HeadOnly (b : Bytes) : Prop :=
  ∃ (code : Status) (lines : List (String × String)),
    b = Head.statusLine code ++ (lines.flatMap Head.lineOf ++ Bytes.crlf)

/-- The head of a response with a body after it. -/
def HasBody (b : Bytes) : Prop := ∃ head body, HeadOnly head ∧ body ≠ [] ∧ b = head ++ body

theorem HeadOnly.getLast? {b : Bytes} (h : HeadOnly b) : b.getLast? = some 10 := by
  obtain ⟨code, lines, rfl⟩ := h
  simp [Bytes.crlf]

theorem Response.headOnly_head (r : Response) : HeadOnly (Bytes.ofText r.head) := ⟨r.status, r.lines, r.ofText_head⟩

namespace Exchange

/-- An answer to HEAD has no body, whatever has come of the request. -/
theorem headOnly_answer {x : Exchange} (h : x.head = true) (running : Bool) (outcome : Except DispatchError Response) :
    HeadOnly (x.answer running outcome).bytes := by
  simp only [answer, Response.encode, h, if_true, List.append_nil]
  exact Response.headOnly_head _

/-- The text of an error ends with a brace. -/
theorem getLast?_ofError (status : Status) (message : String) :
    (Response.ofError status message).body.getLast? = some 125 := by
  have hclose : Bytes.ofText "\x7d" = [125] := by decide
  simp only [Response.ofError, Response.withBody, Json.text]
  rw [Bytes.ofText_append, hclose, List.getLast?_concat]

/-- A refusal has a body. -/
theorem refusal_hasBody {status : Status} (h : status.forbidsBody = false) (message : String) :
    HasBody (refusal status message) ∧ ¬ HeadOnly (refusal status message) := by
  let r : Response := { Response.ofError status message with keepAlive := false }
  have hbytes : refusal status message = Bytes.ofText r.head ++ (Response.ofError status message).body := by
    rw [refusal, Response.encode, if_neg Bool.false_ne_true]
    show _ ++ Response.sentBody r = _
    rw [Response.sentBody, if_neg (by rw [show r.status = status from rfl, h]; exact Bool.false_ne_true)]
  have hlast := getLast?_ofError status message
  have hsome : (Response.ofError status message).body ≠ [] := by
    intro hnil
    rw [hnil] at hlast
    cases hlast
  refine ⟨⟨_, _, r.headOnly_head, hsome, hbytes⟩, fun hhead => ?_⟩
  have hend := hhead.getLast?
  rw [hbytes, List.getLast?_append, hlast] at hend
  cases hend

end Exchange

theorem Refuses.hasBody {reason : CloseReason} {b : Bytes} (h : Refuses reason b) : HasBody b ∧ ¬ HeadOnly b := by
  cases h <;> exact Exchange.refusal_hasBody rfl _

namespace Ledger

variable {rules : ConnectionRules} {l : Ledger} {status : ShutdownState} {phase : Phase}

/-- What has been refused is one of the refusals. -/
theorem Stands.refuses (h : l.Stands rules status phase) {b : Bytes} (hb : b ∈ l.refused) :
    ∃ reason, Refuses reason b := by
  have hnone : l.refused ≠ [] := List.ne_nil_of_mem hb
  cases phase with
  | examining | reading | dispatching | handling | answering | lingering => exact absurd h.2.1 hnone
  | refusing rest reason =>
    obtain ⟨-, ⟨bytes, hbytes, hrefuses⟩, -⟩ := h
    rw [hbytes, List.mem_singleton] at hb
    exact ⟨reason, hb ▸ hrefuses⟩
  | closed reason =>
    have hover : l.Over rules reason := h
    obtain ⟨bytes, hbytes, hrefuses, -⟩ := hover.refused.resolve_left hnone
    rw [hbytes, List.mem_singleton] at hb
    exact ⟨reason, hb ▸ hrefuses⟩

end Ledger

namespace Lifetime

variable {rules : ConnectionRules} {t : Lifetime} {i : Nat} {call : Call} {status : ShutdownState} {capacity : Nat}
  {b : Bytes}

/-! ## Requests that are dispatched -/

theorem Orderly.headOnly (ho : t.Orderly rules) (hcall : t.calls[i]? = some call)
    (hstatus : t.sampled[i]? = some status) (hmethod : call.request.method = .head) :
    ∃ bytes, t.connection.answered[i]? = some bytes ∧ HeadOnly bytes := by
  refine ⟨_, ho.getElem?_answered hcall hstatus, Exchange.headOnly_answer ?_ _ _⟩
  show (call.request.method == .head) = true
  rw [hmethod]
  rfl

theorem Orderly.written_prefix (ho : t.Orderly rules) :
    t.written <+: t.connection.answered.flatten ++ t.connection.refused.flatten := by
  have hbegun : t.written <+: bytesOf (t.answers rules) ++ t.connection.refused.flatten := ho.stands.account.begun
  rw [bytesOf, List.flatMap_def, ← ho.answered_eq] at hbegun
  exact hbegun

/-! ## Requests that are refused -/

/-- The peer takes a refusal, and the connection ends. -/
theorem run_refusal (ht : t.Arrived capacity b) (hcapacity : 0 < capacity) {c : Connection} {bytes : Bytes}
    {reason : CloseReason} (hp : c.phase = .refusing bytes reason) (hout : c.outbound = t.connection.outbound)
    (now : Nat) (shutdown : ShutdownState) :
    ∃ u, Run rules { t with connection := c, now, shutdown } u ∧ u.sent = b ∧ u.connection.phase = .closed reason ∧
      u.written = bytes := by
  have hpipe : c.outbound = .ofCapacity capacity := hout.trans ht.outbound
  let v : Lifetime := { t with connection := c, now, shutdown }
  obtain ⟨u, hu, hclosed, -, hsent, hwritten⟩ := run_dismiss rules v bytes hp (congrArg Pipe.waiting hpipe)
    (congrArg Pipe.closed hpipe) (Nat.lt_of_lt_of_eq hcapacity (congrArg Pipe.capacity hpipe).symm)
  refine ⟨u, hu, hsent.trans ht.sent, hclosed, ?_⟩
  rw [hwritten, written]
  show t.received ++ c.outbound.bytes ++ bytes = bytes
  rw [ht.received, hpipe]
  rfl

/-- What is no request that can be served is refused. -/
theorem Arrived.run_refuse (ht : t.Arrived capacity b) (hcapacity : 0 < capacity) {fault : Status}
    {reason : CloseReason} (found : Admission.ofBuffer rules.maxRequestBytes b = .refuse fault reason) :
    ∃ u, Run rules t u ∧ u.sent = b ∧ u.connection.phase = .closed reason ∧
      u.written = Exchange.refusal fault fault.reason := by
  obtain ⟨deadline, hphase⟩ := ht.phase
  have hstep : t.connection.step rules t.now t.shutdown = some (t.connection.refuse fault fault.reason reason) := by
    rw [Connection.step, hphase]
    simp only [Connection.examine, ht.buffer, ht.shutdown, found, ShutdownState.isRunning, Bool.not_true,
      Bool.false_eq_true, if_false]
  obtain ⟨u, hu, hrest⟩ := run_refusal ht hcapacity (c := t.connection.refuse fault fault.reason reason) rfl rfl t.now
    t.shutdown
  exact ⟨u, (Run.quietly hstep (Connection.quiet_of_works rfl)).trans hu, hrest⟩

/-- What has come is refused when a shutdown begins. -/
theorem Arrived.run_drain (ht : t.Arrived capacity b) (hcapacity : 0 < capacity) (hne : b ≠ []) :
    ∃ u, Run rules t u ∧ u.sent = b ∧ u.connection.phase = .closed .drained ∧ u.written = drainRefusal := by
  obtain ⟨deadline, hphase⟩ := ht.phase
  let c := t.connection.drain t.now
  have hbegin : Run rules t { t with shutdown := .draining 0 } := by
    refine Run.refl.move (.shutDown _ nofun ?_ ?_)
    · rw [ht.shutdown]
      nofun
    · rw [hphase]
      nofun
  have hdrain : t.connection.step rules t.now (.draining 0) = some c := by
    rw [Connection.step, hphase]
    rfl
  have hdrained : Run rules t { t with connection := c, shutdown := .draining 0 } :=
    hbegin.trans (Run.quietly hdrain (Connection.quiet_of_works rfl))
  have hlater : Run rules t { t with
      connection := c, now := t.now + Connection.lingerTime, shutdown := .draining 0 } := hdrained.move (.pass _)
  -- nothing more comes in the time that is left
  have hbuffer : c.buffer.bytes = b := (congrArg ReadBuffer.bytes (Connection.buffer_move _ _)).trans ht.buffer
  have hinbound : c.inbound.bytes = [] := (congrArg Pipe.bytes (Connection.inbound_move _ _)).trans ht.inbound
  have hleave : c.step rules (t.now + Connection.lingerTime) (.draining 0) =
      some (c.refuse .serviceUnavailable Connection.closingMessage .drained) := by
    have hleaves : c.leave = c.refuse .serviceUnavailable Connection.closingMessage .drained := by
      rw [Connection.leave, if_neg (by rw [hbuffer, List.isEmpty_iff]; exact hne)]
    show c.linger rules _ (t.now + Connection.lingerTime) = _
    rw [Connection.linger, hinbound, ← hleaves]
    split
    · rfl
    · rw [if_neg (by simp), if_pos (by simp)]
  obtain ⟨u, hu, hrest⟩ := run_refusal ht hcapacity
    (c := c.refuse .serviceUnavailable Connection.closingMessage .drained) rfl (Connection.outbound_move _ _)
    (t.now + Connection.lingerTime) (.draining 0)
  exact ⟨u, (hlater.trans (Run.quietly hleave (Connection.quiet_of_works rfl))).trans hu, hrest⟩

/-! ## Main result -/

/-- Whatever happens to a connection, what it writes are answers and refusals. The answer to a request with HEAD that
has been dispatched is a head only; every refusal has a body. Whatever method they begin with, bytes that are refused as
they have come, and any that have come when a shutdown begins, bring a response with a body. -/
theorem head_only_iff_dispatched (rules : ConnectionRules) :
    (∀ id capacity now t, Run rules (start rules id capacity now) t →
      t.written <+: t.connection.answered.flatten ++ t.connection.refused.flatten ∧
      (∀ (i : Nat) (call : Call) (status : ShutdownState), t.calls[i]? = some call → t.sampled[i]? = some status →
        call.request.method = .head → ∃ bytes, t.connection.answered[i]? = some bytes ∧ HeadOnly bytes) ∧
      ∀ bytes ∈ t.connection.refused, HasBody bytes ∧ ¬ HeadOnly bytes) ∧
    ∀ id now b, b ≠ [] →
      (∀ fault reason, Admission.ofBuffer rules.maxRequestBytes b = .refuse fault reason →
        ∃ t, Run rules (start rules id b.length now) t ∧ t.sent = b ∧ t.connection.phase = .closed reason ∧
          HasBody t.written ∧ ¬ HeadOnly t.written) ∧
      ∃ t, Run rules (start rules id b.length now) t ∧ t.sent = b ∧ t.connection.phase = .closed .drained ∧
        HasBody t.written ∧ ¬ HeadOnly t.written := by
  constructor
  · intro id capacity now t h
    have ho := h.orderly (orderly_start id capacity now)
    refine ⟨ho.written_prefix, fun i call status hcall hstatus => ho.headOnly hcall hstatus, ?_⟩
    intro bytes hbytes
    obtain ⟨reason, hrefuses⟩ := ho.stands.refuses hbytes
    exact hrefuses.hasBody
  · intro id now b hne
    have hcapacity := List.length_pos_iff.2 hne
    obtain ⟨t, hrun, ht⟩ := run_arrive rules id b.length now hne (Nat.le_refl _)
    constructor
    · intro fault reason found
      obtain ⟨u, hu, hsent, hclosed, hwritten⟩ := ht.run_refuse hcapacity found
      exact ⟨u, hrun.trans hu, hsent, hclosed, hwritten ▸ (Refuses.of_ofBuffer found).hasBody⟩
    · obtain ⟨u, hu, hsent, hclosed, hwritten⟩ := ht.run_drain hcapacity hne
      exact ⟨u, hrun.trans hu, hsent, hclosed, hwritten ▸ Refuses.drained.hasBody⟩

/-- A request with HEAD is answered with a head only if it is dispatched, and with a body if a shutdown begins. -/
theorem head_only_iff_dispatched_of_head :
    let rules : ConnectionRules := ⟨⟨.empty, ⟨0⟩⟩, 10, 64, false, Gzip.gzip⟩
    let b := Bytes.ofText "HEAD / HTTP/1.1\r\n\r\n"
    (∃ t, Run rules (start rules ⟨1⟩ 64 0) t ∧ t.sent = b ∧
      ∃ bytes, t.connection.answered[0]? = some bytes ∧ HeadOnly bytes) ∧
    ∃ t, Run rules (start rules ⟨1⟩ b.length 0) t ∧ t.sent = b ∧ t.connection.phase = .closed .drained ∧
      HasBody t.written ∧ ¬ HeadOnly t.written := by
  intro rules b
  have hfront : Request.front? b = some (.new .head "/", []) := by decide
  obtain ⟨t, hrun, hsent, hcalls, hsampled, -⟩ := run_request rules ⟨1⟩ 64 0 (by decide) (by decide)
    (Admission.serve_of_front? hfront (by decide))
  have hanswer := ((head_only_iff_dispatched rules).1 _ _ _ t hrun).2.1 0 ⟨.new .head "/", rules.dispatcher⟩ .running
    (by rw [hcalls]; rfl) (by rw [hsampled]; rfl) rfl
  exact ⟨⟨t, hrun, hsent, hanswer⟩, ((head_only_iff_dispatched rules).2 ⟨1⟩ 0 b (by decide)).2⟩

/-- A request with HEAD whose length is no number is refused, and the refusal has a body. -/
theorem head_refused_with_body :
    let rules : ConnectionRules := ⟨⟨.empty, ⟨0⟩⟩, 10, 64, false, Gzip.gzip⟩
    let b := Bytes.ofText "HEAD / HTTP/1.1\r\nContent-Length: x\r\n\r\n"
    ∃ request rest t, Request.parse b = .ok (request, rest) ∧ request.method = .head ∧
      Run rules (start rules ⟨1⟩ 64 0) t ∧ t.sent = b ∧ t.connection.phase = .closed .badRequest ∧
      t.written = Exchange.refusal .badRequest Status.badRequest.reason ∧ ¬ HeadOnly t.written := by
  intro rules b
  let request : Request := { Request.new .head "/" with headers := ⟨[("Content-Length", "x")]⟩ }
  have hparse : Request.parse b = .ok (request, []) := by decide
  have found : Admission.ofBuffer 64 b = .refuse .badRequest .badRequest := by
    have hframing : request.framing = .error .invalidLength := by decide
    rw [Admission.ofBuffer, if_neg (by decide), hparse]
    simp only [hframing]
    rfl
  obtain ⟨t, hrun, ht⟩ := run_arrive rules ⟨1⟩ 64 0 (show b ≠ [] by decide) (by decide)
  obtain ⟨u, hu, hsent, hclosed, hwritten⟩ := ht.run_refuse (by decide) found
  exact ⟨request, [], u, hparse, rfl, hrun.trans hu, hsent, hclosed, hwritten, hwritten ▸
    (Refuses.of_ofBuffer found).hasBody.2⟩

end Lifetime

end Hypertext
