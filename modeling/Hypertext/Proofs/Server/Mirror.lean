/-
HEAD mirrors GET. Where no HEAD route matches, the same request comes to the same outcome with both methods, whatever
that is; so the answer to HEAD is the answer to GET without the body, and the connection does the same after both.
-/
import Hypertext.Proofs.Route.Allowed
import Hypertext.Proofs.Server.KeepAlive

namespace Hypertext

/-- The request with another method. -/
def Request.withMethod (method : Method) (q : Request) : Request := { q with method }

/-! ## Outcomes -/

/-- What is found is a route of the table. -/
theorem Table.mem_of_find {t : Table} {method : Method} {path : String} {found : Found}
    (h : t.find method path = .ok found) : found.route ∈ t.routes := by
  rw [find_eq_ok_iff, first?, List.findSome?_eq_some_iff] at h
  obtain ⟨earlier, route, later, hroutes, hroute, -⟩ := h
  rw [Option.ite_none_right_eq_some, Option.map_eq_some_iff] at hroute
  obtain ⟨-, params, -, rfl⟩ := hroute
  rw [hroutes]
  simp

namespace Dispatcher

variable {d : Dispatcher} {q : Request} {found : Found}

/-- What comes of a handler within the limit. -/
def resolve (d : Dispatcher) (reaction : Reaction) : Except DispatchError Response :=
  if d.inTime reaction then conclude reaction.completion else .error (.handlerTimeout d.limit)

/-- No handler tells HEAD from GET in what comes of this request. -/
def IgnoresHead (d : Dispatcher) (q : Request) : Prop :=
  ∀ route ∈ d.table.routes, ∀ params, d.resolve (route.endpoint ⟨q.withMethod .head, params⟩) =
    d.resolve (route.endpoint ⟨q.withMethod .get, params⟩)

theorem dispatch_of_found (h : d.plan q = run q found) :
    d.dispatch q = d.resolve (found.route.endpoint ⟨q, found.params⟩) := by
  rw [dispatch, h]
  rfl

/-- Where no HEAD route matches, HEAD comes to the response that GET comes to, and to the same reason to close. -/
theorem settle_head (hnone : ¬ d.table.Serves .head q.path) (hsame : d.IgnoresHead q) :
    Exchange.settle (d.dispatch (q.withMethod .head)) = Exchange.settle (d.dispatch (q.withMethod .get)) := by
  by_cases hget : d.table.Serves .get q.path
  · obtain ⟨found, hfound, hplan⟩ := plan_of_head (q := q.withMethod .head) rfl hnone hget
    have hplan' : d.plan (q.withMethod .get) = run (q.withMethod .get) found := plan_of_find hfound
    rw [dispatch_of_found hplan, dispatch_of_found hplan', hsame _ (Table.mem_of_find hfound)]
  by_cases hany : ∃ m, d.table.Serves m q.path
  · have hrefused : ∀ m, ¬ d.table.Serves m q.path → m ≠ .options → (m = .head → ¬ d.table.Serves .get q.path) →
        d.dispatch (q.withMethod m) = .error (.methodNotAllowed m q.path (d.table.allowed q.path)) := by
      intro m hm hoptions hhead
      refine dispatch_eq_methodNotAllowed_iff.2 ⟨⟨rfl, rfl, rfl⟩, ?_, hany⟩
      rw [mem_listed]
      rintro (hserves | ⟨hm', hserves⟩ | hm')
      · exact hm hserves
      · exact hhead hm' hserves
      · exact hoptions hm'
    rw [hrefused .head hnone nofun fun _ => hget, hrefused .get hget nofun nofun]
    -- which method was refused does not show in the response
    rfl
  · have hunknown : ∀ m, d.dispatch (q.withMethod m) = .error (.notFound q.path) := fun m =>
      dispatch_eq_notFound_iff.2 ⟨rfl, not_exists.1 hany⟩
    rw [hunknown, hunknown]

end Dispatcher

/-! ## Answers -/

/-- An answer is the head of another: it ends with the empty line, and the other goes on with a body, whose length the
head tells where the status allows one. After both the connection does the same. -/
structure Answer.HeadOf (head whole : Answer) : Prop where
  bytes : ∃ (code : Status) (lines : List (String × String)) (body : Bytes),
    head.bytes = Head.statusLine code ++ (lines.flatMap Head.lineOf ++ Bytes.crlf) ∧
    whole.bytes = head.bytes ++ body ∧
    Headers.getAll "content-length" ⟨lines⟩ = (if code.forbidsBody then [] else [toString body.length]) ∧
    (code.forbidsBody = true → body = [])
  sequel : head.sequel = whole.sequel

/-- Of two exchanges that differ in nothing but the head, one is answered with the head of the other's answer. -/
theorem Exchange.answer_headOf (running keepAlive acceptsGzip : Bool) (encode : Bytes → Bytes)
    {outcome outcome' : Except DispatchError Response} (h : settle outcome = settle outcome') :
    (answer running outcome ⟨true, keepAlive, acceptsGzip, encode⟩).HeadOf
      (answer running outcome' ⟨false, keepAlive, acceptsGzip, encode⟩) := by
  have hwhole : answer running outcome ⟨false, keepAlive, acceptsGzip, encode⟩ =
      answer running outcome' ⟨false, keepAlive, acceptsGzip, encode⟩ := by
    simp only [answer, h]
  rw [← hwhole]
  -- the response that is written, whole or its head
  let r : Response := { (settle outcome).1.compressed acceptsGzip encode with
    keepAlive := keepAlive && (settle outcome).1.keepAlive && running && (settle outcome).2.isNone }
  have hhead : (answer running outcome ⟨true, keepAlive, acceptsGzip, encode⟩).bytes = Bytes.ofText r.head :=
    List.append_nil _
  refine ⟨⟨r.status, r.lines, r.sentBody, ?_, ?_, r.getAll_contentLength, ?_⟩, rfl⟩
  · rw [hhead, Response.ofText_head]
  · rw [hhead]
    rfl
  · intro hforbids
    rw [Response.sentBody, if_pos hforbids]

/-- Where no HEAD route matches, HEAD is answered with the head of the answer to GET. -/
theorem ConnectionRules.answerIn_headOf (rules : ConnectionRules) {d : Dispatcher} {q : Request}
    (hnone : ¬ d.table.Serves .head q.path) (hsame : d.IgnoresHead q) (status : ShutdownState) :
    (rules.answerIn ⟨q.withMethod .head, d⟩ status).HeadOf (rules.answerIn ⟨q.withMethod .get, d⟩ status) :=
  Exchange.answer_headOf status.isRunning q.isKeepAlive _ rules.encode (Dispatcher.settle_head hnone hsame)

/-! ## What follows an answer -/

/-- What a connection may be doing after an answer that has been written, until a further request is dispatched: what
the answer says, and what that leads to. -/
def Phase.Heeds : Sequel → Phase → Prop
  | .goOn, phase => phase.Awaits
  | sequel, .answering rest sequel' => rest = [] ∧ sequel' = sequel
  | .drain, .lingering _ => True
  | .drain, .refusing _ reason => reason = .drained
  | .drain, .closed reason => reason = .drained
  | .close reason, .closed reason' => reason' = reason
  | _, _ => False

theorem Ledger.Stands.heeds {rules : ConnectionRules} {status : ShutdownState} {l : Ledger} {phase : Phase}
    (h : l.Stands rules status phase) {a : Answer} (ha : a ∈ (l.answers rules).getLast?)
    (hall : bytesOf (l.answers rules) <+: l.written) (hcalls : l.calls.length = l.sampled.length) :
    phase.Heeds a.sequel := by
  cases hsequel : a.sequel with
  | goOn =>
    have hgo : ∀ a' ∈ (l.answers rules).getLast?, a'.sequel = .goOn := by
      intro a' ha'
      rw [Option.mem_unique ha' ha, hsequel]
    exact h.awaits hgo hall hcalls
  | close reason =>
    rcases h.ends ha hsequel hall with rfl | ⟨rfl, -⟩
    · rfl
    · exact ⟨rfl, rfl⟩
  | drain =>
    have hgo : a.sequel ≠ .goOn := by
      rw [hsequel]
      exact nofun
    cases phase with
    | examining | reading | dispatching => exact absurd (h.2.2 a ha) hgo
    | handling => exact absurd (h.2.2.1 a ha) hgo
    | answering rest sequel =>
      obtain ⟨htally, hrefused, hlast, -⟩ := h
      rw [Option.mem_def.1 ha, Option.map_some, hsequel] at hlast
      exact ⟨htally.unwritten_eq hrefused hall, (Option.some.inj hlast).symm⟩
    | refusing rest reason => exact ((h.2.2 a ha).resolve_left hgo).2
    | lingering => trivial
    | closed reason =>
      have hover : l.Over rules reason := h
      have hreason := (hover.last a ha hgo).2 (hover.complete hall)
      rw [hsequel] at hreason
      exact (Option.some.inj hreason).symm

namespace Lifetime

/-- The i-th request has this answer. Behind those before it nothing else is written, and what follows it is what it
says. -/
structure Delivers (rules : ConnectionRules) (t : Lifetime) (i : Nat) (a : Answer) : Prop where
  answered : t.connection.answered[i]? = some a.bytes
  written : ∃ later, t.written <+: bytesOf ((t.answers rules).take i) ++ (a.bytes ++ later)
  /-- After an answer that does not go on no request is dispatched. -/
  last : a.sequel ≠ .goOn → t.connection.dispatched.length = i + 1
  follows : t.Wrote rules i → t.connection.dispatched.length = i + 1 → t.connection.phase.Heeds a.sequel
  /-- The step after the answer is the one that it says. -/
  next : ∀ sequel, t.connection.phase = .answering [] sequel → t.connection.dispatched.length = i + 1 →
    t.connection.step rules t.now t.shutdown = some (Connection.follow rules t.now a.sequel
      { t.connection with served := t.connection.served + 1 })

variable {rules : ConnectionRules} {t u : Lifetime} {i j : Nat} {call : Call} {status : ShutdownState}

theorem Orderly.delivers (ho : t.Orderly rules) (hcall : t.calls[i]? = some call)
    (hstatus : t.sampled[i]? = some status) : t.Delivers rules i (rules.answerIn call status) := by
  have ha : (t.answers rules)[i]? = some (rules.answerIn call status) := getElem?_answers hcall hstatus
  constructor
  case answered => exact ho.getElem?_answered hcall hstatus
  case written =>
    obtain ⟨hi, hget⟩ := List.getElem?_eq_some_iff.1 ha
    have hsplit : t.answers rules =
        (t.answers rules).take i ++ rules.answerIn call status :: (t.answers rules).drop (i + 1) := by
      rw [← hget, ← List.drop_eq_getElem_cons hi, List.take_append_drop]
    refine ⟨bytesOf ((t.answers rules).drop (i + 1)) ++ t.connection.refused.flatten, ?_⟩
    have hbegun : t.written <+: bytesOf (t.answers rules) ++ t.connection.refused.flatten :=
      ho.stands.account.begun
    rw [hsplit, bytesOf, List.flatMap_append, List.flatMap_cons, List.append_assoc, List.append_assoc] at hbegun
    exact hbegun
  case last =>
    intro hgo
    rw [Ne, rules.answerIn_goOn_iff] at hgo
    exact (ho.closes ha hgo).1
  case follows =>
    intro hw hlength
    obtain ⟨hmem, hcalls, htake⟩ := ho.mem_getLast? ha hlength
    rw [Wrote, htake] at hw
    exact ho.stands.heeds hmem hw hcalls
  case next =>
    intro sequel hp hlength
    obtain ⟨hmem, -, -⟩ := ho.mem_getLast? ha hlength
    have hstands := ho.stands
    rw [hp] at hstands
    obtain ⟨-, -, hlast, hruns⟩ := hstands
    rw [Option.mem_def.1 hmem, Option.map_some, Option.some_inj] at hlast
    rw [hlast]
    exact step_answered hp (hruns rfl)

/-- On two connections the same request comes with GET and with HEAD, no HEAD route matches its path, the handlers do
not tell the two methods apart, and the outcomes are found in the same state of the shutdown. Then the answer to HEAD is
the answer to GET up to the empty line that ends its head, whatever the outcome is. Each stands behind the answers
before it, and both connections then do the same, which is what the answers say. -/
theorem head_mirrors_get {id id' : ConnectionId} {capacity capacity' now now' : Nat}
    (ht : Run rules (start rules id capacity now) t) (hu : Run rules (start rules id' capacity' now') u)
    {d : Dispatcher} {q : Request} (hnone : ¬ d.table.Serves .head q.path) (hsame : d.IgnoresHead q)
    (hget : t.calls[i]? = some ⟨q.withMethod .get, d⟩) (hhead : u.calls[j]? = some ⟨q.withMethod .head, d⟩)
    (htstatus : t.sampled[i]? = some status) (hustatus : u.sampled[j]? = some status) :
    ∃ whole head : Answer, t.Delivers rules i whole ∧ u.Delivers rules j head ∧ head.HeadOf whole :=
  ⟨_, _, (ht.orderly (orderly_start id capacity now)).delivers hget htstatus,
    (hu.orderly (orderly_start id' capacity' now')).delivers hhead hustatus, rules.answerIn_headOf hnone hsame status⟩

/-- A text that is served with GET: HEAD brings the head of what GET brings. -/
theorem head_mirrors_get_of_text :
    let d : Dispatcher := ⟨⟨[⟨.get, ⟨"/a", [.literal "a"]⟩, fun _ => ⟨3, .response (.ofText "hello")⟩⟩]⟩, .ofMillis 9⟩
    let rules : ConnectionRules := ⟨d, 10, 64, false, Gzip.gzip⟩
    ∃ t u whole head,
      Run rules (start rules ⟨1⟩ 64 0) t ∧ t.sent = Bytes.ofText "GET /a HTTP/1.1\r\n\r\n" ∧
      Run rules (start rules ⟨2⟩ 64 5) u ∧ u.sent = Bytes.ofText "HEAD /a HTTP/1.1\r\n\r\n" ∧
      t.Delivers rules 0 whole ∧ u.Delivers rules 0 head ∧ head.HeadOf whole := by
  intro d rules
  let q : Request := .new .get "/a"
  have hget : Request.front? (Bytes.ofText "GET /a HTTP/1.1\r\n\r\n") = some (q.withMethod .get, []) := by decide
  have hhead : Request.front? (Bytes.ofText "HEAD /a HTTP/1.1\r\n\r\n") = some (q.withMethod .head, []) := by decide
  obtain ⟨t, ht, htsent, htcalls, htsampled, -⟩ := run_request rules ⟨1⟩ 64 0 (by decide) (by decide)
    (Admission.serve_of_front? hget (by decide))
  obtain ⟨u, hu, husent, hucalls, husampled, -⟩ := run_request rules ⟨2⟩ 64 5 (by decide) (by decide)
    (Admission.serve_of_front? hhead (by decide))
  have hnone : ¬ d.table.Serves .head q.path := by
    rintro ⟨route, hroute, hmethod, -⟩
    rw [List.mem_singleton.1 hroute] at hmethod
    cases hmethod
  have hsame : d.IgnoresHead q := by
    intro route hroute params
    rw [List.mem_singleton.1 hroute]
  have htcall : t.calls[0]? = some ⟨q.withMethod .get, d⟩ := by
    rw [htcalls]
    rfl
  have hucall : u.calls[0]? = some ⟨q.withMethod .head, d⟩ := by
    rw [hucalls]
    rfl
  have htstatus : t.sampled[0]? = some .running := by
    rw [htsampled]
    rfl
  have hustatus : u.sampled[0]? = some .running := by
    rw [husampled]
    rfl
  obtain ⟨whole, head, hwhole, hhead, hmirror⟩ := head_mirrors_get ht hu hnone hsame htcall hucall htstatus hustatus
  exact ⟨t, u, whole, head, ht, htsent, hu, husent, hwhole, hhead, hmirror⟩

end Lifetime

end Hypertext
