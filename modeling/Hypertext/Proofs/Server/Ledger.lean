/-
The ledger of a connection: what has been dispatched, sampled, answered, refused and written. An answer says whether
the connection is kept, and what holds of a ledger in a phase is what the answers say: all of them but the last keep
the connection, and the bytes are those of the answers, in order, and of at most one refusal after them.
-/
import Hypertext.Proofs.Message.ResponseHead
import Hypertext.Proofs.Server.Lifetime

namespace Hypertext

/-! ## One answer -/

/-- Why a connection ends after an answer, if it does. -/
def Sequel.reason? : Sequel → Option CloseReason
  | .goOn => none
  | .drain => some .drained
  | .close reason => some reason

namespace Exchange

/-- Whether an outcome gives the connection up. -/
def givesUp : Except DispatchError Response → Bool
  | .ok _ => false
  | .error e => e.closesConnection

/-- Whether the connection is kept after an answer: the request and the response allow it, no shutdown has begun, and
the handler has not been given up. -/
def keeps (running : Bool) (outcome : Except DispatchError Response) (x : Exchange) : Bool :=
  x.wantsKeepAlive && (settle outcome).1.keepAlive && running && !givesUp outcome

variable {running : Bool} {outcome : Except DispatchError Response} {x : Exchange}

/-- The two ways to tell which errors close a connection agree. -/
theorem isNone_settle (outcome : Except DispatchError Response) : (settle outcome).2.isNone = !givesUp outcome := by
  cases outcome with
  | ok response => rfl
  | error e => cases e <;> rfl

/-- An answer has one connection option, and it tells whether the connection is kept. -/
theorem answer_bytes (running : Bool) (outcome : Except DispatchError Response) (x : Exchange) :
    ∃ (status : Status) (lines : List (String × String)) (body : Bytes),
      (x.answer running outcome).bytes =
        Head.statusLine status ++ (lines.flatMap Head.lineOf ++ Bytes.crlf) ++ body ∧
      Headers.getAll "connection" ⟨lines⟩ = [if x.keeps running outcome then "keep-alive" else "close"] := by
  let r : Response := { (settle outcome).1.compressed x.acceptsGzip x.encode with keepAlive := x.keeps running outcome }
  have hbytes : (x.answer running outcome).bytes = r.encode x.head := by
    simp only [r, answer, keeps, isNone_settle]
  refine ⟨r.status, r.lines, if x.head then [] else r.sentBody, ?_, r.getAll_connection⟩
  rw [hbytes, Response.encode, Response.ofText_head]

/-- A connection goes on after an answer exactly if it is kept. -/
theorem answer_goOn_iff : (x.answer running outcome).sequel = .goOn ↔ x.keeps running outcome = true := by
  have hfatal := isNone_settle outcome
  simp only [answer, sequel, keeps]
  cases h : (settle outcome).2 with
  | some reason =>
    rw [h] at hfatal
    rw [← hfatal]
    simp
  | none =>
    rw [h] at hfatal
    rw [← hfatal]
    cases running <;> simp

end Exchange

/-! ## The ledger of a lifetime -/

/-- What has been dispatched, in which states of the shutdown outcomes were found, how many answers have been counted
as written, what the answers and the refusals are, and what has been written. -/
structure Ledger where
  calls : List Call
  sampled : List ShutdownState
  served : Nat
  answered : List Bytes
  refused : List Bytes
  written : Bytes

/-- The answer to a request whose outcome was found in a state of the shutdown. -/
def ConnectionRules.answerIn (rules : ConnectionRules) (call : Call) (status : ShutdownState) : Answer :=
  (Exchange.ofRequest rules.compress rules.encode call.request).answer status.isRunning call.outcome

/-- The bytes of answers. -/
def bytesOf (answers : List Answer) : Bytes := answers.flatMap (·.bytes)

theorem bytesOf_concat (answers : List Answer) (a : Answer) :
    bytesOf (answers ++ [a]) = bytesOf answers ++ a.bytes := by
  rw [bytesOf, List.flatMap_append, List.flatMap_singleton, bytesOf]

/-- The bytes of fewer of the first answers come first. -/
theorem bytesOf_take_le (answers : List Answer) {m n : Nat} (h : m ≤ n) :
    bytesOf (answers.take m) <+: bytesOf (answers.take n) := by
  obtain ⟨rest, hrest⟩ := List.take_prefix_take_left h (l := answers)
  exact ⟨bytesOf rest, by rw [← hrest, bytesOf, bytesOf, bytesOf, List.flatMap_append]⟩

/-- The bytes that refuse a request during a shutdown. -/
def drainRefusal : Bytes := Exchange.refusal .serviceUnavailable Connection.closingMessage

/-- The bytes that refuse a request that is too large. -/
def sizeRefusal : Bytes := Exchange.refusal .payloadTooLarge Status.payloadTooLarge.reason

/-- The bytes that are written before a connection ends without an answer, and the reason. -/
inductive Refuses : CloseReason → Bytes → Prop
  | drained : Refuses .drained drainRefusal
  | badRequest : Refuses .badRequest (Exchange.refusal .badRequest Status.badRequest.reason)
  | payloadTooLarge : Refuses .payloadTooLarge sizeRefusal

theorem Refuses.of_ofBuffer {limit : Nat} {b : Bytes} {status : Status} {reason : CloseReason}
    (h : Admission.ofBuffer limit b = .refuse status reason) :
    Refuses reason (Exchange.refusal status status.reason) := by
  rcases Admission.refuse_cases h with ht | hm
  · rw [h] at ht
    cases ht
    exact .payloadTooLarge
  · rw [h] at hm
    cases hm
    exact .badRequest

/-- Whether a connection that has awaited a request may end for a reason. -/
def CloseReason.EndsWaiting (reason : CloseReason) : Prop :=
  reason = .peerClosed ∨ reason = .idleTimeout ∨ reason = .forced ∨ ∃ bytes, Refuses reason bytes

/-- Whether a connection awaits a further request: it waits, has just found one, takes leave because of a shutdown,
refuses what has come, or has ended meanwhile. -/
def Phase.Awaits : Phase → Prop
  | .examining _ | .reading _ | .dispatching _ | .lingering _ => True
  | .handling .. => False
  | .answering rest sequel => rest = [] ∧ sequel = .goOn
  | .refusing _ reason => ∃ bytes, Refuses reason bytes
  | .closed reason => reason.EndsWaiting

namespace Ledger

/-- The answers to the first requests, one for each sample. -/
def answers (rules : ConnectionRules) (l : Ledger) : List Answer :=
  List.zipWith rules.answerIn l.calls l.sampled

/-- A ledger of a connection that has not ended: so many requests have no outcome yet and so many answers are not
counted yet, and these bytes of answers and refusals are still to be written. -/
structure Tally (rules : ConnectionRules) (running writing : Nat) (unwritten : Bytes) (l : Ledger) : Prop where
  answered : l.answered = (l.answers rules).map (·.bytes)
  sampled : l.sampled.length + running = l.calls.length
  served : l.served + writing = (l.answers rules).length
  total : l.written ++ unwritten = bytesOf (l.answers rules) ++ l.refused.flatten
  counted : bytesOf ((l.answers rules).take l.served) <+: l.written
  earlier : ∀ a ∈ (l.answers rules).dropLast, a.sequel = .goOn

/-- What a ledger tells whatever the connection is doing: there is an answer to each request that has been dispatched,
the last one perhaps not yet; the answers are written in order, and each of them but the last keeps the connection. -/
structure Account (rules : ConnectionRules) (l : Ledger) : Prop where
  answered : l.answered = (l.answers rules).map (·.bytes)
  sampled_le : l.sampled.length ≤ l.calls.length
  calls_le : l.calls.length ≤ l.sampled.length + 1
  served_le : l.served ≤ (l.answers rules).length
  begun : l.written <+: bytesOf (l.answers rules) ++ l.refused.flatten
  counted : bytesOf ((l.answers rules).take l.served) <+: l.written
  earlier : ∀ a ∈ (l.answers rules).dropLast, a.sequel = .goOn

/-- The ledger of a connection that has ended for a reason. -/
structure Over (rules : ConnectionRules) (reason : CloseReason) (l : Ledger) : Prop extends l.Account rules where
  complete : bytesOf (l.answers rules) <+: l.written → l.served = (l.answers rules).length
  last : ∀ a ∈ (l.answers rules).getLast?, a.sequel ≠ .goOn → l.sampled.length = l.calls.length ∧
    (l.served = (l.answers rules).length → a.sequel.reason? = some reason)
  kept : (∀ a ∈ (l.answers rules).getLast?, a.sequel = .goOn) → l.served = (l.answers rules).length → reason.EndsWaiting
  refused : l.refused = [] ∨ ∃ bytes, l.refused = [bytes] ∧ Refuses reason bytes ∧
    l.served = (l.answers rules).length

/-- What holds of a ledger in a phase. -/
def Stands (rules : ConnectionRules) (status : ShutdownState) (l : Ledger) : Phase → Prop
  | .examining _ | .reading _ | .dispatching _ =>
    l.Tally rules 0 0 [] ∧ l.refused = [] ∧ ∀ a ∈ (l.answers rules).getLast?, a.sequel = .goOn
  | .handling exchange deadline ends completion =>
    l.Tally rules 1 0 [] ∧ l.refused = [] ∧ (∀ a ∈ (l.answers rules).getLast?, a.sequel = .goOn) ∧
      ∃ call, l.calls.getLast? = some call ∧ exchange = .ofRequest rules.compress rules.encode call.request ∧
        rules.dispatcher.outcomeBy deadline ends completion = call.outcome
  | .answering rest sequel =>
    l.Tally rules 0 1 rest ∧ l.refused = [] ∧ (l.answers rules).getLast?.map (·.sequel) = some sequel ∧
      (rest = [] → status.isTerminated = false)
  | .refusing rest reason =>
    l.Tally rules 0 0 rest ∧ (∃ bytes, l.refused = [bytes] ∧ Refuses reason bytes) ∧
      ∀ a ∈ (l.answers rules).getLast?, a.sequel = .goOn ∨ a.sequel = .drain ∧ reason = .drained
  | .lingering _ =>
    l.Tally rules 0 0 [] ∧ l.refused = [] ∧
      ∀ a ∈ (l.answers rules).getLast?, a.sequel = .goOn ∨ a.sequel = .drain
  | .closed reason => l.Over rules reason

variable {rules : ConnectionRules} {l : Ledger} {running writing : Nat} {unwritten : Bytes} {reason : CloseReason}
variable {status : ShutdownState} {phase : Phase}

theorem length_answers (h : l.sampled.length ≤ l.calls.length) : (l.answers rules).length = l.sampled.length := by
  rw [answers, List.length_zipWith]
  omega

theorem mem_answers {a : Answer} (h : a ∈ l.answers rules) : ∃ call status, a = rules.answerIn call status := by
  obtain ⟨i, hi, ha⟩ := List.mem_iff_getElem.1 h
  rw [← ha]
  exact ⟨_, _, List.getElem_zipWith⟩

theorem Tally.account (h : l.Tally rules running writing unwritten) (hrunning : running ≤ 1) : l.Account rules := by
  have hsampled := h.sampled
  have hserved := h.served
  constructor
  case answered => exact h.answered
  case sampled_le => omega
  case calls_le => omega
  case served_le => omega
  case begun => exact ⟨unwritten, h.total⟩
  case counted => exact h.counted
  case earlier => exact h.earlier

/-- What is being written has been written when nothing is left of it. -/
theorem Tally.unwritten_eq (h : l.Tally rules running writing unwritten) (hrefused : l.refused = [])
    (hall : bytesOf (l.answers rules) <+: l.written) : unwritten = [] := by
  have htotal := congrArg List.length h.total
  rw [hrefused, List.flatten_nil, List.append_nil, List.length_append] at htotal
  have hle := hall.length_le
  exact List.length_eq_zero_iff.1 (by omega)

/-! ## Ending -/

/-- A connection that has nothing to write, or does not get to write it, ends. -/
theorem Tally.over (h : l.Tally rules running writing unwritten) (hrunning : running ≤ 1)
    (hcomplete : writing = 0 ∨ unwritten ≠ [] ∧ l.refused = [])
    (hlast : ∀ a ∈ (l.answers rules).getLast?, a.sequel ≠ .goOn → running = 0 ∧
      (writing = 0 → a.sequel.reason? = some reason))
    (hkept : (∀ a ∈ (l.answers rules).getLast?, a.sequel = .goOn) → writing = 0 → reason.EndsWaiting)
    (hrefused : l.refused = [] ∨ ∃ bytes, l.refused = [bytes] ∧ Refuses reason bytes ∧ writing = 0) :
    l.Over rules reason := by
  have hsampled := h.sampled
  have hserved := h.served
  constructor
  case toAccount => exact h.account hrunning
  case complete =>
    intro hall
    rcases hcomplete with rfl | ⟨hne, hnone⟩
    · exact hserved
    · exact absurd (h.unwritten_eq hnone hall) hne
  case last =>
    intro a ha hgo
    obtain ⟨hrun, hreason⟩ := hlast a ha hgo
    refine ⟨by omega, ?_⟩
    intro hall
    exact hreason (by omega)
  case kept =>
    intro hgo hall
    exact hkept hgo (by omega)
  case refused =>
    rcases hrefused with hnone | ⟨bytes, hbytes, hrefuses, rfl⟩
    · exact .inl hnone
    · exact .inr ⟨bytes, hbytes, hrefuses, by omega⟩

/-- After an answer that does not keep the connection nothing but the refusal of a shutdown follows. -/
theorem Over.refused_of_last (h : l.Over rules reason) {a : Answer} (ha : a ∈ (l.answers rules).getLast?)
    (hgo : a.sequel ≠ .goOn) : l.refused = [] ∨ l.refused = [drainRefusal] := by
  refine h.refused.imp_right ?_
  rintro ⟨bytes, hbytes, hrefuses, hall⟩
  have hreason := (h.last a ha hgo).2 hall
  obtain ⟨call, status, rfl⟩ := mem_answers (List.mem_of_mem_getLast? ha)
  cases hsequel : (rules.answerIn call status).sequel with
  | goOn => exact absurd hsequel hgo
  | drain =>
    rw [hsequel] at hreason
    cases hreason
    cases hrefuses
    exact hbytes
  | close other =>
    rw [hsequel] at hreason
    cases hreason
    rcases Exchange.answer_close hsequel with rfl | rfl | rfl <;> cases hrefuses

/-! ## What a ledger tells in any phase -/

theorem Stands.account (h : l.Stands rules status phase) : l.Account rules := by
  cases phase with
  | examining | reading | dispatching | answering | refusing | lingering => exact h.1.account (Nat.zero_le _)
  | handling => exact h.1.account (Nat.le_refl _)
  | closed reason => exact h.toAccount

/-- After an answer that does not keep the connection no request is dispatched. -/
theorem Stands.nothing_after (h : l.Stands rules status phase) {a : Answer} (ha : a ∈ (l.answers rules).getLast?)
    (hgo : a.sequel ≠ .goOn) :
    l.sampled.length = l.calls.length ∧ (l.refused = [] ∨ l.refused = [drainRefusal]) := by
  cases phase with
  | examining | reading | dispatching => exact absurd (h.2.2 a ha) hgo
  | handling => exact absurd (h.2.2.1 a ha) hgo
  | answering => exact ⟨h.1.sampled, .inl h.2.1⟩
  | refusing rest reason =>
    obtain ⟨htally, ⟨bytes, hbytes, hrefuses⟩, hlast⟩ := h
    obtain ⟨-, rfl⟩ := (hlast a ha).resolve_left hgo
    cases hrefuses
    exact ⟨htally.sampled, .inr hbytes⟩
  | lingering => exact ⟨h.1.sampled, .inl h.2.1⟩
  | closed reason =>
    have hover : l.Over rules reason := h
    exact ⟨(hover.last a ha hgo).1, hover.refused_of_last ha hgo⟩

/-- After answers that keep the connection a further request is awaited. -/
theorem Stands.awaits (h : l.Stands rules status phase) (hgo : ∀ a ∈ (l.answers rules).getLast?, a.sequel = .goOn)
    (hall : bytesOf (l.answers rules) <+: l.written) (hcalls : l.calls.length = l.sampled.length) : phase.Awaits := by
  cases phase with
  | examining | reading | dispatching | lingering => trivial
  | handling =>
    have hsampled := h.1.sampled
    omega
  | answering rest sequel =>
    obtain ⟨htally, hrefused, hlast, -⟩ := h
    obtain ⟨a, ha, rfl⟩ := Option.map_eq_some_iff.1 hlast
    exact ⟨htally.unwritten_eq hrefused hall, hgo a ha⟩
  | refusing rest reason =>
    obtain ⟨-, ⟨bytes, -, hrefuses⟩, -⟩ := h
    exact ⟨bytes, hrefuses⟩
  | closed reason => exact h.kept hgo (h.complete hall)

/-- After an answer that closes the connection for a reason it ends for that reason. -/
theorem Stands.ends (h : l.Stands rules status phase) {a : Answer} (ha : a ∈ (l.answers rules).getLast?)
    (hclose : a.sequel = .close reason) (hall : bytesOf (l.answers rules) <+: l.written) :
    phase = .closed reason ∨ phase = .answering [] (.close reason) ∧ status.isTerminated = false := by
  have hgo : a.sequel ≠ .goOn := by
    rw [hclose]
    exact nofun
  cases phase with
  | examining | reading | dispatching => exact absurd (h.2.2 a ha) hgo
  | handling => exact absurd (h.2.2.1 a ha) hgo
  | answering rest sequel =>
    obtain ⟨htally, hrefused, hlast, hruns⟩ := h
    obtain rfl := htally.unwritten_eq hrefused hall
    rw [Option.mem_def.1 ha, Option.map_some, hclose] at hlast
    cases hlast
    exact .inr ⟨rfl, hruns rfl⟩
  | refusing rest reason =>
    obtain ⟨hdrain, -⟩ := (h.2.2 a ha).resolve_left hgo
    rw [hclose] at hdrain
    cases hdrain
  | lingering =>
    have hdrain := (h.2.2 a ha).resolve_left hgo
    rw [hclose] at hdrain
    cases hdrain
  | closed other =>
    have hover : l.Over rules other := h
    have hreason := (hover.last a ha hgo).2 (hover.complete hall)
    rw [hclose] at hreason
    cases hreason
    exact .inl rfl

/-! ## One step of a ledger -/

theorem earlier_of_last {answers : List Answer} (hearlier : ∀ a ∈ answers.dropLast, a.sequel = .goOn)
    (hlast : ∀ a ∈ answers.getLast?, a.sequel = .goOn) : ∀ a ∈ answers, a.sequel = .goOn := by
  intro a ha
  rcases List.eq_nil_or_concat answers with rfl | ⟨init, last, rfl⟩
  · cases ha
  · rw [List.concat_eq_append] at ha hearlier hlast
    rw [List.dropLast_concat] at hearlier
    rw [List.getLast?_concat] at hlast
    rcases List.mem_append.1 ha with ha | ha
    · exact hearlier a ha
    · rw [List.mem_singleton.1 ha]
      exact hlast last rfl

/-- A request that is dispatched has no answer yet. -/
theorem answers_call (rules : ConnectionRules) (h : l.sampled.length = l.calls.length) (call : Call) :
    { l with calls := l.calls ++ [call] }.answers rules = l.answers rules := by
  show List.zipWith rules.answerIn (l.calls ++ [call]) l.sampled = _
  rw [← List.append_nil l.sampled, List.zipWith_append h.symm, List.zipWith_nil_right, List.append_nil]
  rfl

/-- An outcome makes the answer to the last request. -/
theorem answers_settle {call : Call} (h : l.sampled.length + 1 = l.calls.length)
    (hlast : l.calls.getLast? = some call) (status : ShutdownState) :
    List.zipWith rules.answerIn l.calls (l.sampled ++ [status]) =
      l.answers rules ++ [rules.answerIn call status] := by
  obtain ⟨before, hbefore⟩ := List.getLast?_eq_some_iff.1 hlast
  rw [hbefore, List.length_append, List.length_singleton] at h
  have hlength : before.length = l.sampled.length := by omega
  have hanswers : l.answers rules = List.zipWith rules.answerIn before l.sampled := by
    rw [answers, hbefore, ← List.append_nil l.sampled, List.zipWith_append hlength, List.zipWith_nil_right,
      List.append_nil, List.append_nil]
  rw [hanswers, hbefore, List.zipWith_append hlength]
  rfl

theorem Tally.call (h : l.Tally rules 0 0 []) (call : Call) :
    { l with calls := l.calls ++ [call] }.Tally rules 1 0 [] := by
  have hanswers := answers_call rules h.sampled call
  constructor
  case answered => rw [hanswers]; exact h.answered
  case sampled =>
    show l.sampled.length + 1 = (l.calls ++ [call]).length
    rw [List.length_append, ← h.sampled]
    rfl
  case served => rw [hanswers]; exact h.served
  case total => rw [hanswers]; exact h.total
  case counted => rw [hanswers]; exact h.counted
  case earlier => rw [hanswers]; exact h.earlier

/-- A request is answered after those before it. -/
theorem Tally.answer {call : Call} (h : l.Tally rules 1 0 []) (hrefused : l.refused = [])
    (hgo : ∀ a ∈ (l.answers rules).getLast?, a.sequel = .goOn) (hlast : l.calls.getLast? = some call)
    (status : ShutdownState) :
    { l with
      sampled := l.sampled ++ [status]
      answered := l.answered ++ [(rules.answerIn call status).bytes] }.Tally rules 0 1
        (rules.answerIn call status).bytes := by
  have hanswers : { l with
      sampled := l.sampled ++ [status]
      answered := l.answered ++ [(rules.answerIn call status).bytes] }.answers rules =
        l.answers rules ++ [rules.answerIn call status] := answers_settle h.sampled hlast status
  have hserved := h.served
  have htotal := h.total
  constructor
  case answered =>
    rw [hanswers, List.map_append]
    show l.answered ++ _ = _
    rw [h.answered]
    rfl
  case sampled =>
    show (l.sampled ++ [status]).length + 0 = l.calls.length
    rw [List.length_append, ← h.sampled]
    rfl
  case served =>
    show l.served + 1 = _
    rw [hanswers, List.length_append, ← hserved]
    rfl
  case total =>
    rw [hanswers]
    show l.written ++ _ = bytesOf _ ++ l.refused.flatten
    rw [hrefused, List.append_nil] at htotal
    rw [htotal, hrefused, bytesOf_concat, List.flatten_nil, List.append_nil, List.append_nil]
  case counted =>
    rw [hanswers]
    show bytesOf ((l.answers rules ++ _).take l.served) <+: _
    rw [List.take_append_of_le_length (by omega)]
    exact h.counted
  case earlier =>
    rw [hanswers, List.dropLast_concat]
    exact earlier_of_last h.earlier hgo

theorem Tally.write (h : l.Tally rules running writing unwritten) {bytes rest : Bytes}
    (hsplit : unwritten = bytes ++ rest) :
    { l with written := l.written ++ bytes }.Tally rules running writing rest where
  answered := h.answered
  sampled := h.sampled
  served := h.served
  total := by
    show l.written ++ bytes ++ rest = _
    rw [List.append_assoc, ← hsplit]
    exact h.total
  counted := h.counted.trans (List.prefix_append _ _)
  earlier := h.earlier

/-- An answer that has been written is counted. -/
theorem Tally.count (h : l.Tally rules running 1 []) (hrefused : l.refused = []) :
    { l with served := l.served + 1 }.Tally rules running 0 [] where
  answered := h.answered
  sampled := h.sampled
  served := h.served
  total := h.total
  counted := by
    have htotal := h.total
    rw [hrefused, List.append_nil, List.flatten_nil, List.append_nil] at htotal
    show bytesOf ((l.answers rules).take (l.served + 1)) <+: l.written
    have hwhole : (l.answers rules).take (l.served + 1) = l.answers rules := by rw [h.served, List.take_length]
    exact ⟨[], by rw [hwhole, htotal, List.append_nil]⟩
  earlier := h.earlier

theorem Tally.refuse (h : l.Tally rules 0 0 []) (hrefused : l.refused = []) (bytes : Bytes) :
    { l with refused := l.refused ++ [bytes] }.Tally rules 0 0 bytes where
  answered := h.answered
  sampled := h.sampled
  served := h.served
  total := by
    have htotal := h.total
    rw [hrefused, List.append_nil] at htotal
    show l.written ++ bytes = bytesOf (l.answers rules) ++ (l.refused ++ [bytes]).flatten
    rw [htotal, hrefused]
    simp
  counted := h.counted
  earlier := h.earlier

end Ledger

end Hypertext
