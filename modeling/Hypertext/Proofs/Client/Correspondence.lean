/-
Sessions and the servers they write to. Any number of requests is under way at a time, each on a connection that it
has checked out; what the servers send arrives in pieces, and who makes the next move is up to the outside.

What every move keeps is the account of who uses which connection, and of the bytes on it: the requests on a connection
have read, one after another, what has arrived there, and only a request whose response was complete and allowed it has
been followed by another. As long as a server has sent nothing but the responses to the requests on a connection, what
is still to come on it is the rest of the response to the last of them.
-/
import Hypertext.Client.Session
import Hypertext.Proofs.Client.Intake
import Hypertext.Proofs.Client.PoolStreams

namespace Hypertext

/-! ## Rows -/

/-- Something is true of everything in a row and of what stands before it. -/
def Successively {α : Type} (P : List α → α → Prop) (row : List α) : Prop :=
  ∀ before a after, row = before ++ a :: after → P before a

namespace Successively

variable {α : Type} {P : List α → α → Prop} {row before after : List α} {a b : α}

theorem nil : Successively P [] := by
  intro before a after h
  simp at h

theorem append (h : Successively P row) (ha : P row a) : Successively P (row ++ [a]) := by
  intro before x after hrow
  rcases after.eq_nil_or_concat with rfl | ⟨others, last, rfl⟩
  · obtain ⟨rfl, hx⟩ := List.append_inj' hrow rfl
    cases hx
    exact ha
  · rw [List.concat_eq_append, ← List.cons_append, ← List.append_assoc] at hrow
    obtain ⟨rfl, -⟩ := List.append_inj' hrow rfl
    exact h before x others rfl

/-- One entry of a row changes. -/
theorem change (h : Successively P (before ++ a :: after)) (hb : P before b)
    (hafter : ∀ between x, x ∈ after → P (before ++ a :: between) x → P (before ++ b :: between) x) :
    Successively P (before ++ b :: after) := by
  intro first x last hrow
  rcases List.append_eq_append_iff.1 hrow with ⟨m, rfl, hm⟩ | ⟨m, rfl, hm⟩
  · cases m with
    | nil =>
      cases hm
      rwa [List.append_nil]
    | cons y m =>
      rw [List.cons_append, List.cons.injEq] at hm
      obtain ⟨rfl, rfl⟩ := hm
      refine hafter m x (List.mem_append_right _ List.mem_cons_self) (h _ x last ?_)
      rw [List.append_assoc, List.cons_append]
  · cases m with
    | nil =>
      cases hm
      rwa [List.append_nil] at hb
    | cons y m =>
      rw [List.cons_append, List.cons.injEq] at hm
      obtain ⟨rfl, -⟩ := hm
      exact h first x (m ++ a :: after) (by rw [List.append_assoc, List.cons_append])

end Successively

theorem mem_append_cons_iff {α : Type} {before after : List α} {a x : α} :
    x ∈ before ++ a :: after ↔ x = a ∨ x ∈ before ∨ x ∈ after := by
  rw [List.mem_append, List.mem_cons, or_left_comm]

/-! ## Connections and requests -/

/-- What has been sent to a session on a connection: the bytes that are still to come, those that have arrived, those
of them that have not been read, and whether the end of the connection has been seen. -/
structure Line where
  coming : Bytes
  arrived : Bytes
  unread : Bytes
  ended : Bool

def Line.fresh : Line := ⟨[], [], [], false⟩

/-- A request on a connection: what the server sends there until the next request, what had arrived there before, what
has been taken for the response, and where the reading of the response stands. -/
structure Errand where
  request : Outgoing
  stream : PooledStream
  sends : Bytes
  found : Bytes
  taken : Bytes
  state : ReadState

namespace Errand

/-- The response is still being read. -/
def Waits (e : Errand) : Prop := ∃ r, e.state = .waiting r

/-- The response has been received, and the connection can be used again. -/
def Kept (e : Errand) : Prop := ∃ received, e.state = .done (.ok received) ∧ Session.mayKeep received = true

/-- The server sends interim responses and a final one for the request, and nothing else. -/
def Answered (e : Errand) : Prop := ∃ w : WireResponse, w.bytes = e.sends ∧ w.Answers e.request.method

theorem Waits.not_kept {e : Errand} (h : e.Waits) : ¬e.Kept := by
  rintro ⟨received, hdone, -⟩
  obtain ⟨r, hwaits⟩ := h
  rw [hwaits] at hdone
  cases hdone

end Errand

/-- The server answers all requests of a row that are made on a connection. -/
def Served (s : PooledStream) (es : List Errand) : Prop := ∀ e ∈ es, e.stream = s → e.Answered

/-- Whom a server answers is not changed by the reading of a response. -/
theorem Served.of_change {s : PooledStream} {before after : List Errand} {e e' : Errand}
    (h : Served s (before ++ e' :: after)) (hs : e'.stream = e.stream) (hanswered : e'.Answered → e.Answered) :
    Served s (before ++ e :: after) := by
  intro x hx hxs
  rcases mem_append_cons_iff.1 hx with rfl | hx
  · exact hanswered (h e' (mem_append_cons_iff.2 (.inl rfl)) (hs.trans hxs))
  · exact h x (mem_append_cons_iff.2 (.inr hx)) hxs

/-- What the requests of a row have taken on a connection. -/
def takenOn (s : PooledStream) (es : List Errand) : Bytes := (es.filter fun e => e.stream == s).flatMap (·.taken)

@[simp]
theorem takenOn_nil (s : PooledStream) : takenOn s [] = [] := rfl

theorem takenOn_append (s : PooledStream) (es es' : List Errand) :
    takenOn s (es ++ es') = takenOn s es ++ takenOn s es' := by
  rw [takenOn, List.filter_append, List.flatMap_append, takenOn, takenOn]

theorem takenOn_cons (s : PooledStream) (e : Errand) (es : List Errand) :
    takenOn s (e :: es) = (if e.stream = s then e.taken else []) ++ takenOn s es := by
  unfold takenOn
  by_cases h : e.stream = s
  · rw [List.filter_cons_of_pos (by simpa using h), if_pos h, List.flatMap_cons]
  · rw [List.filter_cons_of_neg (by simpa using h), if_neg h, List.nil_append]

theorem takenOn_eq_nil {s : PooledStream} {es : List Errand} (h : ∀ e ∈ es, e.stream ≠ s) : takenOn s es = [] := by
  rw [takenOn, List.filter_eq_nil_iff.2 fun e he => by simpa using h e he, List.flatMap_nil]

/-- A pool, the requests that were made, by the numbers of their checkouts, the connections, and the requests that
have got one, in the order in which they did. -/
structure Correspondence where
  pool : Pool
  asked : List Outgoing
  lines : PooledStream → Line
  errands : List Errand

namespace Correspondence

def new (config : ClientConfig) : Correspondence := ⟨.new config.maxConnectionsPerTarget, [], fun _ => .fresh, []⟩

/-- What becomes of a connection when the reading of a response comes to this state. -/
def settle (stream : PooledStream) : ReadState → Pool → Pool
  | .waiting _, p => p
  | .done (.ok received), p => if Session.mayKeep received then p.putBack stream else p.drop stream
  | .done (.error _), p => p.drop stream

/-- A request is made on a connection that it has been given. -/
def start (config : ClientConfig) (o : Outgoing) (s : PooledStream) (line : Line) (sends : Bytes) (pool : Pool)
    (c : Correspondence) : Correspondence :=
  { c with
    pool
    lines := Function.update c.lines s { line with coming := line.coming ++ sends }
    errands := c.errands ++
      [⟨o, s, sends, line.arrived, [], .waiting (.new (o.method == .head) config.maxResponseBytes)⟩] }

/-- The reading of a response takes a piece, leaves the rest, and comes to this state. -/
def proceed (before : List Errand) (e : Errand) (after : List Errand) (piece rest : Bytes) (state : ReadState)
    (c : Correspondence) : Correspondence :=
  { c with
    pool := settle e.stream state c.pool
    lines := Function.update c.lines e.stream { c.lines e.stream with unread := rest }
    errands := before ++ { e with taken := e.taken ++ piece, state } :: after }

/-- What can happen. A connection is used again only if nothing unread and no end is seen on it; its end comes behind
all bytes; and a request can fail, be overdue or be given up at any time. -/
inductive Step (config : ClientConfig) : Correspondence → Correspondence → Prop
  | ask {c : Correspondence} (o : Outgoing) :
      Step config c { c with pool := (c.pool.enter o.target).2, asked := c.asked ++ [o] }
  | tend {c : Correspondence} {p : Pool} (next : Pool.Step c.pool [] p) : Step config c { c with pool := p }
  | reuse {c : Correspondence} {t : Target} {l : Lane} {n : Nat} {s : PooledStream} {o : Outgoing} (sends : Bytes)
      (lane : c.pool.lane? t = some l) (chooses : n ∈ l.choosing) (found : c.pool.candidate? t = some s)
      (asked : c.asked[n]? = some o) (unread : (c.lines s).unread = []) (lasts : (c.lines s).ended = false) :
      Step config c (c.start config o s (c.lines s) sends (c.pool.reuse n s))
  | connect {c : Correspondence} {t : Target} {l : Lane} {n : Nat} {o : Outgoing} (sends : Bytes)
      (lane : c.pool.lane? t = some l) (connects : n ∈ l.connecting) (asked : c.asked[n]? = some o) :
      Step config c (c.start config o (c.pool.connected t n).1 .fresh sends (c.pool.connected t n).2)
  | deliver {c : Correspondence} {piece rest : Bytes} (s : PooledStream) (coming : (c.lines s).coming = piece ++ rest) :
      Step config c { c with
        lines := Function.update c.lines s { c.lines s with
          coming := rest
          arrived := (c.lines s).arrived ++ piece
          unread := (c.lines s).unread ++ piece } }
  | hangUp {c : Correspondence} (s : PooledStream) (all : (c.lines s).coming = []) :
      Step config c { c with lines := Function.update c.lines s { c.lines s with ended := true } }
  | read {c : Correspondence} {before after : List Errand} {e : Errand} {r : ResponseReader} {piece rest : Bytes}
      (split : c.errands = before ++ e :: after) (waits : e.state = .waiting r) (some : piece ≠ [])
      (room : piece.length ≤ r.buffer.room) (unread : (c.lines e.stream).unread = piece ++ rest) :
      Step config c (c.proceed before e after piece rest (r.feed piece))
  | readEnd {c : Correspondence} {before after : List Errand} {e : Errand} {r : ResponseReader}
      (split : c.errands = before ++ e :: after) (waits : e.state = .waiting r)
      (unread : (c.lines e.stream).unread = []) (ended : (c.lines e.stream).ended = true) :
      Step config c (c.proceed before e after [] [] (.done r.close))
  | fail {c : Correspondence} {before after : List Errand} {e : Errand} {r : ResponseReader} (error : ClientError)
      (split : c.errands = before ++ e :: after) (waits : e.state = .waiting r) :
      Step config c (c.proceed before e after [] (c.lines e.stream).unread (.done (.error error)))

/-! ## What is true of every request -/

/-- What is true of a request and of those that were made before it. -/
structure Stands (config : ClientConfig) (before : List Errand) (e : Errand) : Prop where
  own : e.stream.target = e.request.target
  waits : ∀ r, e.state = .waiting r → ResponseReader.Holds (e.request.method == .head) config.maxResponseBytes e.taken r
  took : ∀ received, e.state = .done (.ok received) →
    ∃ closed, ResponseReader.Took (e.request.method == .head) config.maxResponseBytes e.taken closed received
  kept : ∀ x ∈ before, x.stream = e.stream → x.Kept
  found : e.found = takenOn e.stream before
  brought : ∀ received (w : WireResponse), e.state = .done (.ok received) → Served e.stream before → w.bytes = e.sends →
    w.Answers e.request.method → w.Brings config.maxResponseBytes received.response

/-- The account of a session and of the connections it has. -/
structure Sound (config : ClientConfig) (c : Correspondence) : Prop where
  history : ∃ events, Pool.Run (.new config.maxConnectionsPerTarget) events c.pool ∧
    ∀ n t, .entered n t ∈ events → ∃ o, c.asked[n]? = some o ∧ o.target = t
  numbers : c.pool.nextCheckout = c.asked.length
  errands : Successively (Stands config) c.errands
  held : ∀ s, s ∈ c.pool.heldStreams ↔ ∃ e ∈ c.errands, e.stream = s ∧ e.Waits
  idle : ∀ s ∈ c.pool.idleStreams, ∀ e ∈ c.errands, e.stream = s → e.Kept
  opened : ∀ e ∈ c.errands, e.stream.number < c.pool.opened
  ended : ∀ s, (c.lines s).ended = true → (c.lines s).coming = []
  read : ∀ s, (c.lines s).arrived = takenOn s c.errands ++ (c.lines s).unread
  due : ∀ e ∈ c.errands, e.Waits → Served e.stream c.errands →
    e.taken ++ ((c.lines e.stream).unread ++ (c.lines e.stream).coming) = e.sends
  silent : ∀ s ∈ c.pool.idleStreams, Served s c.errands → (c.lines s).unread ++ (c.lines s).coming = []

variable {config : ClientConfig} {c d : Correspondence} {before after : List Errand} {e : Errand} {s : PooledStream}
  {p q : Pool} {shown : List PoolEvent} {n : Nat} {o : Outgoing} {line : Line} {piece rest : Bytes} {state : ReadState}

theorem sound_new (config : ClientConfig) : (new config).Sound config where
  history := ⟨[], .refl, fun _ _ h => absurd h List.not_mem_nil⟩
  numbers := rfl
  errands := .nil
  held _ := ⟨fun h => absurd h List.not_mem_nil, fun ⟨_, he, _⟩ => absurd he List.not_mem_nil⟩
  idle _ h := absurd h List.not_mem_nil
  opened _ h := absurd h List.not_mem_nil
  ended _ _ := rfl
  read _ := rfl
  due _ h := absurd h List.not_mem_nil
  silent _ h := absurd h List.not_mem_nil

theorem Sound.pool (hc : c.Sound config) : c.pool.Sound := by
  obtain ⟨events, hrun, -⟩ := hc.history
  exact hrun.keeps.1

/-- The history goes on. -/
theorem Sound.history_of_step (hc : c.Sound config) {asked : List Outgoing} (next : Pool.Step c.pool shown q)
    (hold : ∀ (n : Nat) (o : Outgoing), c.asked[n]? = some o → asked[n]? = some o)
    (hshown : ∀ (n : Nat) (t : Target), .entered n t ∈ shown → ∃ o, asked[n]? = some o ∧ o.target = t) :
    ∃ events, Pool.Run (.new config.maxConnectionsPerTarget) (events ++ shown) q ∧
      ∀ n t, .entered n t ∈ events ++ shown → ∃ o, asked[n]? = some o ∧ o.target = t := by
  obtain ⟨events, hrun, hasked⟩ := hc.history
  refine ⟨events, hrun.step next, ?_⟩
  intro n t h
  rcases List.mem_append.1 h with h | h
  · obtain ⟨o, ho, htarget⟩ := hasked n t h
    exact ⟨o, hold n o ho, htarget⟩
  · exact hshown n t h

/-! ## The pool by itself -/

/-- A step of the pool that neither gives a connection nor takes one. -/
theorem Sound.of_pool (hc : c.Sound config) {asked : List Outgoing} (next : Pool.Step c.pool shown q)
    (hold : ∀ (n : Nat) (o : Outgoing), c.asked[n]? = some o → asked[n]? = some o)
    (hshown : ∀ event ∈ shown, ∃ n t, event = .entered n t ∧ ∃ o, asked[n]? = some o ∧ o.target = t)
    (hnumbers : q.nextCheckout = asked.length) : ({ c with pool := q, asked } : Correspondence).Sound config := by
  have hquiet : ∀ f : PoolEvent → Bool, (∀ n t, f (.entered n t) = false) → shown.countP f = 0 := by
    intro f hf
    rw [List.countP_eq_zero]
    intro event hevent
    obtain ⟨n, t, rfl, -⟩ := hshown event hevent
    rw [hf]
    exact Bool.false_ne_true
  have hidle : ∀ x ∈ q.idleStreams, x ∈ c.pool.idleStreams := by
    intro x hx
    refine (next.idle hx).resolve_left fun hreturned => ?_
    obtain ⟨n, t, heq, -⟩ := hshown _ hreturned
    cases heq
  constructor
  case history =>
    obtain ⟨events, hrun, hasked⟩ := hc.history_of_step next hold fun n t h => by
      obtain ⟨m, t', heq, ho⟩ := hshown _ h
      cases heq
      exact ho
    exact ⟨_, hrun, hasked⟩
  case numbers => exact hnumbers
  case errands => exact hc.errands
  case held =>
    intro x
    refine (next.held_of_quiet hc.pool (fun y => hquiet _ ?_) fun y => hquiet _ ?_).trans (hc.held x) <;>
      exact fun _ _ => rfl
  case idle => exact fun x hx => hc.idle x (hidle x hx)
  case opened => exact fun x hx => Nat.lt_of_lt_of_le (hc.opened x hx) (next.opened_le hc.pool)
  case ended => exact hc.ended
  case read => exact hc.read
  case due => exact hc.due
  case silent => exact fun x hx => hc.silent x (hidle x hx)

theorem Sound.ask (hc : c.Sound config) (o : Outgoing) :
    ({ c with pool := (c.pool.enter o.target).2, asked := c.asked ++ [o] } : Correspondence).Sound config := by
  have hlast : (c.asked ++ [o])[c.pool.nextCheckout]? = some o := by
    rw [hc.numbers, List.getElem?_append_right (Nat.le_refl _), Nat.sub_self]
    rfl
  refine hc.of_pool (.enter o.target) ?_ ?_ ?_
  · intro n o' ho
    rw [List.getElem?_append_left (List.getElem?_eq_some_iff.1 ho).1]
    exact ho
  · intro event hevent
    exact ⟨_, _, List.mem_singleton.1 hevent, o, hlast, rfl⟩
  · rw [List.length_append, ← hc.numbers]
    rfl

/-! ## The lines by themselves -/

/-- What is sent arrives, or its end is seen. -/
theorem Sound.of_line (hc : c.Sound config) (hends : line.ended = true → line.coming = [])
    (hread : line.arrived = takenOn s c.errands ++ line.unread)
    (hsame : line.unread ++ line.coming = (c.lines s).unread ++ (c.lines s).coming) :
    ({ c with lines := Function.update c.lines s line } : Correspondence).Sound config := by
  have hall : ∀ x, (Function.update c.lines s line x).unread ++ (Function.update c.lines s line x).coming =
      (c.lines x).unread ++ (c.lines x).coming :=
    (Function.forall_update_iff c.lines fun x l => l.unread ++ l.coming = (c.lines x).unread ++ (c.lines x).coming).2
      ⟨hsame, fun _ _ => rfl⟩
  refine ⟨hc.history, hc.numbers, hc.errands, hc.held, hc.idle, hc.opened, ?_, ?_, ?_, ?_⟩
  · exact (Function.forall_update_iff c.lines fun _ l => l.ended = true → l.coming = []).2
      ⟨hends, fun x _ => hc.ended x⟩
  · exact (Function.forall_update_iff c.lines fun x l => l.arrived = takenOn x c.errands ++ l.unread).2
      ⟨hread, fun x _ => hc.read x⟩
  · intro x hx hwaits hserved
    rw [hall]
    exact hc.due x hx hwaits hserved
  · intro x hx hserved
    rw [hall]
    exact hc.silent x hx hserved

/-! ## Requests that begin -/

/-- A connection that is given to a request has been asked for by it. -/
theorem Sound.own_of_yielded (hc : c.Sound config) (next : Pool.Step c.pool [.yielded n s] q)
    (hasked : c.asked[n]? = some o) : s.target = o.target := by
  obtain ⟨events, hrun, hentered⟩ := hc.history_of_step next (fun _ _ h => h) fun n t h => by simp at h
  have hyielded : .yielded n s ∈ events ++ [PoolEvent.yielded n s] :=
    List.mem_append_right _ (List.mem_singleton_self _)
  obtain ⟨o', ho', htarget⟩ := hentered n s.target (hrun.keeps.2.2.yields_own hyielded).1
  rw [hasked] at ho'
  cases ho'
  exact htarget.symm

/-- A request is made on a connection on which nothing is unread; if the server has sent nothing but responses, then
nothing is to come either. -/
theorem Sound.start (hc : c.Sound config) (next : Pool.Step c.pool [.yielded n s] q) (hasked : c.asked[n]? = some o)
    (hkept : ∀ x ∈ c.errands, x.stream = s → x.Kept)
    (hunread : line.unread = []) (hlasts : line.ended = false) (hread : line.arrived = takenOn s c.errands)
    (hsilent : Served s c.errands → line.coming = []) (sends : Bytes) :
    (c.start config o s line sends q).Sound config := by
  have hheld : ∀ x, x ∈ q.heldStreams ↔ x = s ∨ x ∈ c.pool.heldStreams := fun x => next.held_of_yielded hc.pool
  have hsound : q.Sound := next.sound hc.pool
  have hidle : ∀ x ∈ q.idleStreams, x ≠ s ∧ x ∈ c.pool.idleStreams := by
    intro x hx
    refine ⟨?_, (next.idle hx).resolve_left (by simp)⟩
    rintro rfl
    exact (hsound.apart hx).1 ((hheld x).2 (.inl rfl))
  -- the others that wait do so on other connections
  have hother : ∀ x ∈ c.errands, x.Waits → x.stream ≠ s := fun x hx hwaits hs => hwaits.not_kept (hkept x hx hs)
  constructor
  case history =>
    obtain ⟨events, hrun, hentered⟩ := hc.history_of_step next (fun _ _ h => h) fun n t h => by simp at h
    exact ⟨_, hrun, hentered⟩
  case numbers => exact (next.nextCheckout_eq hc.pool fun _ _ h => by simp at h).trans hc.numbers
  case errands =>
    refine hc.errands.append ⟨hc.own_of_yielded next hasked, ?_, ?_, hkept, hread, ?_⟩
    · rintro r ⟨⟩
      exact ResponseReader.holds_new
    · rintro received ⟨⟩
    · rintro received w ⟨⟩
  case held =>
    intro x
    rw [show (c.start config o s line sends q).pool = q from rfl, hheld x, hc.held x]
    constructor
    · rintro (rfl | ⟨e, he, rfl, hwaits⟩)
      · exact ⟨_, List.mem_append_right _ (List.mem_singleton_self _), rfl, _, rfl⟩
      · exact ⟨e, List.mem_append_left _ he, rfl, hwaits⟩
    · rintro ⟨e, he, rfl, hwaits⟩
      rcases List.mem_append.1 he with he | he
      · exact .inr ⟨e, he, rfl, hwaits⟩
      · rw [List.mem_singleton.1 he]
        exact .inl rfl
  case idle =>
    intro x hx e he hs
    obtain ⟨hne, hx⟩ := hidle x hx
    rcases List.mem_append.1 he with he | he
    · exact hc.idle x hx e he hs
    · rw [List.mem_singleton.1 he] at hs
      exact absurd hs.symm hne
  case opened =>
    intro e he
    rcases List.mem_append.1 he with he | he
    · exact Nat.lt_of_lt_of_le (hc.opened e he) (next.opened_le hc.pool)
    · rw [List.mem_singleton.1 he]
      refine hsound.number_lt (List.mem_append_left _ (List.mem_append_right _ ?_))
      exact (hheld s).2 (.inl rfl)
  case ended =>
    refine (Function.forall_update_iff c.lines fun _ l => l.ended = true → l.coming = []).2
      ⟨fun hended => ?_, fun x _ => hc.ended x⟩
    exact absurd (hlasts.symm.trans hended) Bool.false_ne_true
  case read =>
    refine (Function.forall_update_iff c.lines fun x l => l.arrived = takenOn x (c.errands ++ [_]) ++ l.unread).2
      ⟨?_, fun x hxs => ?_⟩ <;> rw [takenOn_append, takenOn_cons, takenOn_nil]
    · simp [hread, hunread]
    · simp [hc.read x, hxs.symm]
  case due =>
    intro e he hwaits hserved
    have hserved' : Served e.stream c.errands := fun x hx => hserved x (List.mem_append_left _ hx)
    rcases List.mem_append.1 he with he | he
    · simp only [Correspondence.start, Function.update_of_ne (hother e he hwaits)]
      exact hc.due e he hwaits hserved'
    · rw [List.mem_singleton.1 he] at hserved' ⊢
      simp [Correspondence.start, hunread, hsilent hserved']
  case silent =>
    intro x hx hserved
    obtain ⟨hne, hx⟩ := hidle x hx
    simp only [Correspondence.start, Function.update_of_ne hne]
    exact hc.silent x hx fun e he => hserved e (List.mem_append_left _ he)

/-! ## Requests that go on -/

theorem settle_step (hp : p.Sound) (hs : s ∈ p.heldStreams) (outcome : Except ClientError Received) :
    Pool.Step p [.returned s] (settle s (.done outcome) p) := by
  obtain ⟨l, hl, hmem⟩ := hp.lane?_of_held hs
  cases outcome with
  | error e => exact .drop hl hmem
  | ok received =>
    show Pool.Step p _ (if Session.mayKeep received then _ else _)
    split
    · exact .putBack hl hmem
    · exact .drop hl hmem

/-- A connection is only put back after a response that allows it. -/
theorem kept_of_settle (hp : p.Sound) (hs : s ∈ p.heldStreams) {outcome : Except ClientError Received}
    (h : s ∈ (settle s (.done outcome) p).idleStreams) :
    ∃ received, outcome = .ok received ∧ Session.mayKeep received = true := by
  have hsound := (settle_step hp hs outcome).sound hp
  have hdropped : settle s (.done outcome) p ≠ p.drop s := by
    intro hdrop
    rw [hdrop] at hsound h
    exact (hsound.apart h).2 List.mem_cons_self
  cases outcome with
  | error e => exact absurd rfl hdropped
  | ok received =>
    refine ⟨received, rfl, ?_⟩
    by_contra hnot
    exact hdropped (if_neg hnot)

/-- What becomes of the pool when the reading of a response on a connection comes to a state. -/
structure Settled (s : PooledStream) (state : ReadState) (p q : Pool) : Prop where
  history : ∀ {start : Pool} {events : List PoolEvent}, Pool.Run start events p →
    ∃ shown, Pool.Run start (events ++ shown) q ∧ ∀ n t, .entered n t ∉ shown
  held : ∀ x, x ∈ q.heldStreams ↔ x ∈ p.heldStreams ∧ (x = s → ∃ r, state = .waiting r)
  idle : ∀ x ∈ q.idleStreams, x ≠ s ∧ x ∈ p.idleStreams ∨
    x = s ∧ ∃ received, state = .done (.ok received) ∧ Session.mayKeep received = true
  opened : p.opened ≤ q.opened
  numbers : q.nextCheckout = p.nextCheckout

theorem settled (hp : p.Sound) (hs : s ∈ p.heldStreams) (state : ReadState) : Settled s state p (settle s state p) := by
  cases state with
  | waiting r =>
    refine ⟨fun hrun => ⟨[], by rwa [List.append_nil], fun _ _ h => absurd h List.not_mem_nil⟩, ?_, ?_,
      Nat.le_refl _, rfl⟩
    · exact fun x => ⟨fun hx => ⟨hx, fun _ => ⟨r, rfl⟩⟩, And.left⟩
    · intro x hx
      refine .inl ⟨?_, hx⟩
      rintro rfl
      exact (hp.apart hx).1 hs
  | done outcome =>
    have next := settle_step hp hs outcome
    have hnone : ∀ n t, PoolEvent.entered n t ∉ [PoolEvent.returned s] := fun _ _ h => by simp at h
    refine ⟨fun hrun => ⟨_, hrun.step next, hnone⟩, ?_, ?_, next.opened_le hp, next.nextCheckout_eq hp hnone⟩
    · intro x
      rw [next.held_of_returned hp, and_comm]
      refine and_congr_right fun _ => ⟨fun hne heq => absurd heq hne, ?_⟩
      rintro h rfl
      obtain ⟨r, hr⟩ := h rfl
      cases hr
    · intro x hx
      by_cases hxs : x = s
      · subst hxs
        obtain ⟨received, rfl, hmay⟩ := kept_of_settle hp hs hx
        exact .inr ⟨rfl, received, rfl, hmay⟩
      · exact .inl ⟨hxs, (next.idle hx).resolve_left (by simpa using hxs)⟩

/-- Nothing is made on a connection while a response is being read there. -/
theorem Sound.ne_of_after (hc : c.Sound config) (hsplit : c.errands = before ++ e :: after) (hwaits : e.Waits) :
    ∀ x ∈ after, x.stream ≠ e.stream := by
  intro x hx hs
  obtain ⟨between, last, rfl⟩ := List.append_of_mem hx
  have hx := hc.errands (before ++ e :: between) x last (by rw [hsplit, List.append_assoc, List.cons_append])
  exact hwaits.not_kept (hx.kept e (List.mem_append_right _ List.mem_cons_self) hs.symm)

/-- What is true of a request does not depend on how far those on other connections have come. -/
theorem Stands.of_other {between : List Errand} {x e' : Errand} (h : Stands config (before ++ e :: between) x)
    (hx : x.stream ≠ e.stream) (hs : e'.stream = e.stream) : Stands config (before ++ e' :: between) x where
  own := h.own
  waits := h.waits
  took := h.took
  kept y hy hyx := by
    rcases mem_append_cons_iff.1 hy with rfl | hy
    · exact absurd (hyx.symm.trans hs) hx
    · exact h.kept y (mem_append_cons_iff.2 (.inr hy)) hyx
  found := by
    rw [h.found, takenOn_append, takenOn_append, takenOn_cons, takenOn_cons, if_neg hx.symm, if_neg (hs ▸ hx.symm)]
  brought received w hdone hserved := by
    refine h.brought received w hdone fun y hy hyx => ?_
    rcases mem_append_cons_iff.1 hy with rfl | hy
    · exact absurd hyx.symm hx
    · exact hserved y (mem_append_cons_iff.2 (.inr hy)) hyx

/-- While a response is being read on a connection, no other is. -/
theorem Sound.ne_of_waits (hc : c.Sound config) (hsplit : c.errands = before ++ e :: after) (hwaits : e.Waits)
    {x : Errand} (hx : x ∈ before ∨ x ∈ after) (hxwaits : x.Waits) : x.stream ≠ e.stream := by
  intro hs
  rcases hx with hx | hx
  · exact hxwaits.not_kept ((hc.errands before e after hsplit).kept x hx hs)
  · exact hc.ne_of_after hsplit hwaits x hx hs

/-- What has been taken for a response and what is left are what the server sends. -/
theorem Sound.due_of_split (hc : c.Sound config) (hsplit : c.errands = before ++ e :: after) (hwaits : e.Waits)
    (hunread : (c.lines e.stream).unread = piece ++ rest) (hserved : Served e.stream c.errands) :
    e.taken ++ piece ++ (rest ++ (c.lines e.stream).coming) = e.sends := by
  have hdue := hc.due e (hsplit ▸ mem_append_cons_iff.2 (.inl rfl)) hwaits hserved
  rw [hunread] at hdue
  simpa using hdue

/-- The response that is taken is the final one that the server sends, and nothing is to come behind it. -/
theorem Sound.brings (hc : c.Sound config) (hsplit : c.errands = before ++ e :: after) (hwaits : e.Waits)
    (hunread : (c.lines e.stream).unread = piece ++ rest) {closed : Bool} {received : Received} {w : WireResponse}
    (htaken : ResponseReader.Took (e.request.method == .head) config.maxResponseBytes (e.taken ++ piece) closed received)
    (hclosed : closed = true → rest ++ (c.lines e.stream).coming = []) (hserved : Served e.stream before)
    (hbytes : w.bytes = e.sends) (hw : w.Answers e.request.method) :
    w.Brings config.maxResponseBytes received.response ∧ rest ++ (c.lines e.stream).coming = [] := by
  have hall : Served e.stream c.errands := by
    intro x hx hs
    rw [hsplit] at hx
    rcases mem_append_cons_iff.1 hx with rfl | hx | hx
    · exact ⟨w, hbytes, hw⟩
    · exact hserved x hx hs
    · exact absurd hs (hc.ne_of_after hsplit hwaits x hx)
  have hdue := hc.due_of_split hsplit hwaits hunread hall
  exact hw.of_took (hdue.trans hbytes.symm) htaken hclosed

/-- The reading of a response takes a piece of what is unread on its connection. -/
theorem Sound.proceed (hc : c.Sound config) (hsplit : c.errands = before ++ e :: after) (hwaits : e.Waits)
    (hunread : (c.lines e.stream).unread = piece ++ rest)
    (hholds : ∀ r, state = .waiting r →
      ResponseReader.Holds (e.request.method == .head) config.maxResponseBytes (e.taken ++ piece) r)
    (htook : ∀ received, state = .done (.ok received) → ∃ closed,
      ResponseReader.Took (e.request.method == .head) config.maxResponseBytes (e.taken ++ piece) closed received ∧
        (closed = true → rest ++ (c.lines e.stream).coming = [])) :
    (c.proceed before e after piece rest state).Sound config := by
  have hstands := hc.errands before e after hsplit
  have hafter := hc.ne_of_after hsplit hwaits
  have hother : ∀ {x}, x ∈ before ∨ x ∈ after → x.Waits → x.stream ≠ e.stream := hc.ne_of_waits hsplit hwaits
  have hmem : ∀ {x}, x ∈ c.errands ↔ x = e ∨ x ∈ before ∨ x ∈ after := by
    intro x
    rw [hsplit]
    exact mem_append_cons_iff
  have hserved : ∀ {x}, Served x (c.proceed before e after piece rest state).errands → Served x c.errands := by
    intro x h
    rw [hsplit]
    exact h.of_change rfl id
  have hsettled := settled hc.pool ((hc.held e.stream).2 ⟨e, hmem.2 (.inl rfl), rfl, hwaits⟩) state
  constructor
  case history =>
    obtain ⟨events, hrun, hentered⟩ := hc.history
    obtain ⟨shown, hrun', hnone⟩ := hsettled.history hrun
    refine ⟨_, hrun', ?_⟩
    intro n t h
    exact hentered n t ((List.mem_append.1 h).resolve_right (hnone n t))
  case numbers => exact hsettled.numbers.trans hc.numbers
  case errands =>
    refine Successively.change (hsplit ▸ hc.errands) ⟨hstands.own, hholds, ?_, hstands.kept, hstands.found, ?_⟩ ?_
    · intro received hdone
      obtain ⟨closed, htaken, -⟩ := htook received hdone
      exact ⟨closed, htaken⟩
    · intro received w hdone hs hbytes hw
      obtain ⟨closed, htaken, hclosed⟩ := htook received hdone
      exact (hc.brings hsplit hwaits hunread htaken hclosed hs hbytes hw).1
    · exact fun between x hx h => h.of_other (hafter x hx) rfl
  case held =>
    intro x
    refine (hsettled.held x).trans ?_
    rw [hc.held x]
    constructor
    · rintro ⟨⟨y, hy, hyx, hywaits⟩, hstate⟩
      rcases hmem.1 hy with rfl | hy
      · exact ⟨_, mem_append_cons_iff.2 (.inl rfl), hyx, hstate hyx.symm⟩
      · exact ⟨y, mem_append_cons_iff.2 (.inr hy), hyx, hywaits⟩
    · rintro ⟨y, hy, hyx, hywaits⟩
      rcases mem_append_cons_iff.1 hy with rfl | hy
      · exact ⟨⟨e, hmem.2 (.inl rfl), hyx, hwaits⟩, fun _ => hywaits⟩
      · exact ⟨⟨y, hmem.2 (.inr hy), hyx, hywaits⟩, fun hxs => absurd (hyx.trans hxs) (hother hy hywaits)⟩
  case idle =>
    intro x hx y hy hyx
    rcases hsettled.idle x hx with ⟨hne, hx⟩ | ⟨rfl, hkept⟩
    · rcases mem_append_cons_iff.1 hy with rfl | hy
      · exact absurd hyx.symm hne
      · exact hc.idle x hx y (hmem.2 (.inr hy)) hyx
    · rcases mem_append_cons_iff.1 hy with rfl | hy | hy
      · exact hkept
      · exact hstands.kept y hy hyx
      · exact absurd hyx (hafter y hy)
  case opened =>
    intro y hy
    refine Nat.lt_of_lt_of_le ?_ hsettled.opened
    rcases mem_append_cons_iff.1 hy with rfl | hy
    · exact hc.opened e (hmem.2 (.inl rfl))
    · exact hc.opened y (hmem.2 (.inr hy))
  case ended =>
    exact (Function.forall_update_iff c.lines fun _ l => l.ended = true → l.coming = []).2
      ⟨hc.ended e.stream, fun x _ => hc.ended x⟩
  case read =>
    have hread : ∀ x, (c.lines x).arrived = takenOn x (before ++ e :: after) ++ (c.lines x).unread := hsplit ▸ hc.read
    refine (Function.forall_update_iff c.lines fun x l => l.arrived = takenOn x (before ++ _ :: after) ++ l.unread).2
      ⟨?_, fun x hxs => ?_⟩
    · have hread := hread e.stream
      rw [takenOn_append, takenOn_cons, takenOn_eq_nil hafter, hunread] at hread
      rw [takenOn_append, takenOn_cons, takenOn_eq_nil hafter]
      simpa using hread
    · have hread := hread x
      rw [takenOn_append, takenOn_cons, if_neg hxs.symm] at hread
      rw [takenOn_append, takenOn_cons, if_neg hxs.symm]
      exact hread
  case due =>
    intro y hy hywaits hs
    rcases mem_append_cons_iff.1 hy with rfl | hy
    · simp only [Correspondence.proceed, Function.update_self]
      exact hc.due_of_split hsplit hwaits hunread (hserved hs)
    · simp only [Correspondence.proceed, Function.update_of_ne (hother hy hywaits)]
      exact hc.due y (hmem.2 (.inr hy)) hywaits (hserved hs)
  case silent =>
    intro x hx hs
    rcases hsettled.idle x hx with ⟨hne, hx⟩ | ⟨rfl, received, hdone, -⟩
    · simp only [Correspondence.proceed, Function.update_of_ne hne]
      exact hc.silent x hx (hserved hs)
    · simp only [Correspondence.proceed, Function.update_self]
      obtain ⟨w, hbytes, hw⟩ := hserved hs e (hmem.2 (.inl rfl)) rfl
      obtain ⟨closed, htaken, hclosed⟩ := htook received hdone
      have hfirst : Served e.stream before := fun y hy => hserved hs y (hmem.2 (.inr (.inl hy)))
      exact (hc.brings hsplit hwaits hunread htaken hclosed hfirst hbytes hw).2

/-! ## All that can happen -/

theorem Step.sound (h : Step config c d) (hc : c.Sound config) : d.Sound config := by
  cases h with
  | ask o => exact hc.ask o
  | tend next =>
    refine hc.of_pool next (fun _ _ h => h) (fun event h => absurd h List.not_mem_nil) ?_
    exact (next.nextCheckout_eq hc.pool fun _ _ h => absurd h List.not_mem_nil).trans hc.numbers
  | @reuse t l n s o sends lane chooses found asked unread lasts =>
    obtain ⟨-, hidle⟩ := hc.pool.target_of_candidate lane found
    refine hc.start (.reuse lane chooses found) asked (hc.idle s hidle) unread lasts ?_ ?_ sends
    · rw [hc.read s, unread, List.append_nil]
    · exact fun hs => (List.append_eq_nil_iff.1 (hc.silent s hidle hs)).2
  | @connect t l n o sends lane connects asked =>
    have hfresh : ∀ x ∈ c.errands, x.stream ≠ (c.pool.connected t n).1 := by
      intro x hx hs
      have hlt := hc.opened x hx
      rw [hs] at hlt
      exact Nat.lt_irrefl _ hlt
    refine hc.start (.connected lane connects) asked (fun x hx hs => absurd hs (hfresh x hx)) rfl rfl ?_
      (fun _ => rfl) sends
    rw [takenOn_eq_nil hfresh]
    rfl
  | @deliver piece rest s coming =>
    refine hc.of_line (fun hends => ?_) ?_ ?_
    · have hnil := hc.ended s hends
      rw [coming] at hnil
      exact (List.append_eq_nil_iff.1 hnil).2
    · rw [hc.read s, List.append_assoc]
    · rw [coming, List.append_assoc]
  | hangUp s all => exact hc.of_line (fun _ => all) (hc.read s) rfl
  | @read before after e r piece rest split waits some room unread =>
    have hholds := ((hc.errands before e after split).waits r waits).feed piece
    refine hc.proceed split ⟨r, waits⟩ unread (fun r' hr' => ?_) (fun received hdone => ?_)
    · rw [hr'] at hholds
      exact hholds
    · rw [hdone] at hholds
      exact ⟨false, hholds received rfl, nofun⟩
  | @readEnd before after e r split waits unread ended =>
    have hholds := (hc.errands before e after split).waits r waits
    refine hc.proceed split ⟨r, waits⟩ (by rw [unread]; rfl) nofun (fun received hdone => ?_)
    refine ⟨true, ?_, fun _ => hc.ended _ ended⟩
    rw [List.append_nil]
    injection hdone with hclose
    exact hholds.close hclose
  | fail error split waits =>
    exact hc.proceed split ⟨_, waits⟩ rfl nofun (fun received hdone => by cases hdone)

end Correspondence

end Hypertext
