/-
A session while nobody else acts. What it does for one request is a part of what can happen between sessions and
servers: the checkout passes over the stale connections, takes an idle one or opens one, the response is read from what
arrives, and the connection is put back or closed.
-/
import Hypertext.Proofs.Client.Correspondence

namespace Hypertext

/-! ## A checkout by itself -/

namespace Pool

variable {p q mid : Pool} {t : Target} {l : Lane} {n : Nat} {isStale : PooledStream → Bool}
  {result : Except ClientError PooledStream × Pool}

/-- Some steps of which nothing shows. -/
def Quiet : Pool → Pool → Prop := Relation.ReflTransGen fun p q => Step p [] q

/-- How a checkout ends: some steps of which nothing shows are made, and then it is given an idle connection that is not
stale or a new one, or it fails. -/
inductive Ends (isStale : PooledStream → Bool) (t : Target) (n : Nat) (p : Pool) :
    Except ClientError PooledStream × Pool → Prop
  | reused {mid : Pool} {l : Lane} {s : PooledStream} (quiet : Quiet p mid) (lane : mid.lane? t = some l)
      (chooses : n ∈ l.choosing) (found : mid.candidate? t = some s) (lasts : isStale s = false) :
      Ends isStale t n p (.ok s, mid.reuse n s)
  | connected {mid : Pool} {l : Lane} (quiet : Quiet p mid) (lane : mid.lane? t = some l)
      (connects : n ∈ l.connecting) : Ends isStale t n p (.ok (mid.connected t n).1, (mid.connected t n).2)
  | failed {q : Pool} {e : ClientError} (quiet : Quiet p q) : Ends isStale t n p (.error e, q)

theorem Ends.head (next : Step p [] mid) (h : Ends isStale t n mid result) : Ends isStale t n p result := by
  cases h with
  | reused quiet lane chooses found lasts => exact .reused (.head next quiet) lane chooses found lasts
  | connected quiet lane connects => exact .connected (.head next quiet) lane connects
  | failed quiet => exact .failed (.head next quiet)

theorem connect_ends (hl : p.lane? t = some l) (hn : n ∈ l.choosing) (hnone : p.candidate? t = none)
    (limit : Duration) (outcome : ConnectOutcome) : Ends isStale t n p (p.connect limit outcome t n) := by
  have hbegun : Step p [] (p.beginConnect t n) := .beginConnect hl hn hnone
  have hlane : (p.beginConnect t n).lane? t =
      some { l with choosing := l.choosing.erase n, connecting := l.connecting ++ [n] } := by
    rw [beginConnect, lane?_update]
    · rw [hl]
      rfl
    · exact fun _ => rfl
  have hconnects : n ∈ l.connecting ++ [n] := List.mem_append_right _ (List.mem_singleton_self n)
  refine Ends.head hbegun ?_
  cases outcome with
  | connected => exact .connected .refl hlane hconnects
  | failed reason => exact .failed (.single (.connectFailed hlane hconnects))
  | timedOut => exact .failed (.single (.connectFailed hlane hconnects))

theorem choose_ends (limit : Duration) (outcome : ConnectOutcome) : ∀ (steps : Nat) {p : Pool} {l : Lane}, p.Sound →
    p.lane? t = some l → n ∈ l.choosing → l.idle.length ≤ steps →
      Ends isStale t n p (p.choose isStale limit outcome t n steps)
  | 0, p, l, _, hl, hn, hle => by
    have hnone : p.candidate? t = none := by
      rw [candidate?, hl, Option.bind_some, List.eq_nil_of_length_eq_zero (Nat.le_zero.1 hle)]
      rfl
    exact connect_ends hl hn hnone limit outcome
  | steps + 1, p, l, hp, hl, hn, hle => by
    unfold choose
    split
    · next hnone => exact connect_ends hl hn hnone limit outcome
    · next s hs =>
      split
      · have hidle := mem_idle_of_candidate hl hs
        have hdiscard : Step p [] (p.discard s) := .discard hl hn hs
        have hlane : (p.discard s).lane? t = some { l with idle := l.idle.erase s } := by
          show (p.update s.target _).lane? t = _
          rw [(hp.target_of_candidate hl hs).1, lane?_update]
          · rw [hl]
            rfl
          · exact fun _ => rfl
        have hlength : (l.idle.erase s).length ≤ steps := by
          rw [List.length_erase_of_mem hidle]
          omega
        exact .head hdiscard (choose_ends limit outcome steps (hdiscard.sound hp) hlane hn hlength)
      · next hlasts => exact .reused .refl hl hn hs (Bool.eq_false_iff.2 hlasts)

theorem checkout_ends (hp : p.Sound) (limits : CheckoutLimits) (isStale : PooledStream → Bool) (outcome : ConnectOutcome)
    (t : Target) :
    Ends isStale t p.nextCheckout (p.enter t).2 (p.checkout limits isStale outcome t) := by
  obtain ⟨l, hl, -⟩ := enter_eq t p
  have hlane : (p.enter t).2.lane? t = some (l.enter p.nextCheckout) := by
    show ((p.track t).update t _).lane? t = _
    rw [lane?_update]
    · rw [hl]
      rfl
    · exact target_enter _
  have hlength : (l.enter p.nextCheckout).idle.length ≤ (p.enter t).2.idle := by
    obtain ⟨before, after, hlanes⟩ := List.append_of_mem (mem_of_lane? hlane).1
    rw [← length_idleStreams, idleStreams, hlanes, List.flatMap_append, List.flatMap_cons, List.length_append,
      List.length_append]
    omega
  show Ends _ _ _ _ (if (p.enter t).2.mayChoose t p.nextCheckout then _ else _)
  split
  · next hmay =>
    rw [mayChoose, hlane, Option.any_some, List.contains_iff_mem] at hmay
    exact choose_ends limits.connect outcome _ (hp.enter t) hlane hmay hlength
  · next hmay =>
    rw [mayChoose, hlane, Option.any_some, List.contains_iff_mem] at hmay
    -- a checkout that has no place waits for one
    have hwaits : p.nextCheckout ∈ (l.enter p.nextCheckout).waiting := by
      unfold Lane.enter at hmay ⊢
      split at hmay
      · exact absurd (List.mem_append_right _ (List.mem_singleton_self _)) hmay
      · next hfull =>
        rw [if_neg hfull]
        exact List.mem_append_right _ (List.mem_singleton_self _)
    exact .failed (.single (.giveUp hlane hwaits))

theorem Quiet.idle (h : Quiet p q) {x : PooledStream} (hx : x ∈ q.idleStreams) : x ∈ p.idleStreams := by
  induction h with
  | refl => exact hx
  | tail _ next ih => exact ih ((next.idle hx).resolve_left List.not_mem_nil)

end Pool

namespace Correspondence

variable {config : ClientConfig} {c d : Correspondence} {before : List Errand} {e : Errand} {s : PooledStream}
  {q : Pool} {r : ResponseReader}

/-- What can happen in any number of steps. -/
def Leads (config : ClientConfig) : Correspondence → Correspondence → Prop := Relation.ReflTransGen (Step config)

theorem leads_of_quiet (h : Pool.Quiet c.pool q) : Leads config c { c with pool := q } := by
  induction h with
  | refl => exact .refl
  | tail _ next ih => exact ih.tail (.tend next)

/-! ## A response by itself -/

/-- The response to the last request is being read, these bytes are unread, and no more are to come. -/
structure Reads (before : List Errand) (e : Errand) (r : ResponseReader) (unread : Bytes) (c : Correspondence) :
    Prop where
  errands : ∃ taken, c.errands = before ++ [{ e with taken, state := .waiting r }]
  unread : (c.lines e.stream).unread = unread
  coming : (c.lines e.stream).coming = []

/-- The reading of the response can have this outcome. -/
def Comes (config : ClientConfig) (before : List Errand) (e : Errand) (outcome : Except ClientError Received)
    (c : Correspondence) : Prop :=
  ∃ d taken, Leads config c d ∧ d.pool = settle e.stream (.done outcome) c.pool ∧
    d.errands = before ++ [{ e with taken, state := .done outcome }]

/-- The reading of the response can come to this state, with some bytes still unread if it waits. -/
def Goes (config : ClientConfig) (before : List Errand) (e : Errand) (later : Bytes) (c : Correspondence) :
    ReadState → Prop
  | .waiting next => ∃ d, Leads config c d ∧ d.pool = c.pool ∧ d.Reads before e next later
  | .done outcome => c.Comes config before e outcome

theorem Comes.head {outcome : Except ClientError Received} (hleads : Leads config c d) (hpool : d.pool = c.pool)
    (h : d.Comes config before e outcome) : c.Comes config before e outcome := by
  obtain ⟨last, taken, hleads', hlast, herrands⟩ := h
  rw [hpool] at hlast
  exact ⟨last, taken, hleads.trans hleads', hlast, herrands⟩

theorem Goes.head {later : Bytes} {state : ReadState} (hleads : Leads config c d) (hpool : d.pool = c.pool)
    (h : d.Goes config before e later state) : c.Goes config before e later state := by
  cases state with
  | waiting next =>
    obtain ⟨last, hleads', hlast, hreads⟩ := h
    exact ⟨last, hleads.trans hleads', hlast.trans hpool, hreads⟩
  | done outcome => exact Comes.head hleads hpool h

theorem Reads.feed {piece later : Bytes} (h : c.Reads before e r (piece ++ later)) (hsome : piece ≠ [])
    (hroom : piece.length ≤ r.buffer.room) : c.Goes config before e later (r.feed piece) := by
  obtain ⟨⟨taken, herrands⟩, hunread, hcoming⟩ := h
  have next : Step config c (c.proceed before { e with taken, state := .waiting r } [] piece later (r.feed piece)) :=
    .read herrands rfl hsome hroom hunread
  cases hfeed : r.feed piece with
  | waiting following =>
    rw [hfeed] at next
    refine ⟨_, .single next, rfl, ⟨_, rfl⟩, ?_, ?_⟩
    · simp only [proceed, Function.update_self]
    · simpa only [proceed, Function.update_self] using hcoming
  | done outcome =>
    rw [hfeed] at next
    exact ⟨_, _, .single next, rfl, rfl⟩

/-- A piece is read in as many reads as are necessary. -/
theorem Reads.feedPiece : ∀ (steps : Nat) {piece later : Bytes} {c : Correspondence} {r : ResponseReader},
    c.Reads before e r (piece ++ later) → piece.length ≤ steps → c.Goes config before e later (r.feedPiece steps piece)
  | 0, piece, later, c, r, h, hle => by
    obtain rfl : piece = [] := List.eq_nil_of_length_eq_zero (Nat.le_zero.1 hle)
    exact ⟨c, .refl, rfl, h⟩
  | k + 1, [], later, c, r, h, _ => ⟨c, .refl, rfl, h⟩
  | k + 1, b :: bs, later, c, r, h, hle => by
    have hroom := r.buffer.room_pos
    rw [ResponseReader.feedPiece, if_neg (by simp)]
    -- the first read takes what there is room for
    have hfirst : c.Goes config before e ((b :: bs).drop r.buffer.room ++ later)
        (r.feed ((b :: bs).take r.buffer.room)) := by
      refine Reads.feed ?_ ?_ (List.length_take_le _ _)
      · rw [← List.append_assoc, List.take_append_drop]
        exact h
      · rw [Ne, List.take_eq_nil_iff]
        simp only [reduceCtorEq, or_false]
        omega
    cases hfeed : r.feed ((b :: bs).take r.buffer.room) with
    | done outcome =>
      rw [hfeed] at hfirst
      exact hfirst
    | waiting next =>
      rw [hfeed] at hfirst
      obtain ⟨d, hleads, hpool, hreads⟩ := hfirst
      refine Goes.head hleads hpool (Reads.feedPiece k hreads ?_)
      rw [List.length_drop]
      omega

/-- The response is read from all that has arrived. -/
theorem Reads.readAll (ending : ResponseReader.Ending) : ∀ {pieces : List Bytes} {c : Correspondence} {r : ResponseReader},
    c.Reads before e r pieces.flatten → c.Comes config before e (r.readAll ending pieces)
  | [], c, r, ⟨⟨taken, herrands⟩, hunread, hcoming⟩ => by
    cases ending with
    | closed =>
      -- the end of the connection is seen, and then it is read
      refine ⟨_, _, .head (.hangUp e.stream hcoming) (.single (.readEnd (e := { e with taken, state := .waiting r })
        herrands rfl ?_ ?_)), rfl, rfl⟩
      · simp only [Function.update_self]
        exact hunread
      · simp only [Function.update_self]
    | failed text => exact ⟨_, _, .single (.fail _ herrands rfl), rfl, rfl⟩
    | overdue limit => exact ⟨_, _, .single (.fail _ herrands rfl), rfl, rfl⟩
  | piece :: pieces, c, r, h => by
    have hgoes : c.Goes config before e pieces.flatten (r.feedPiece piece.length piece) :=
      Reads.feedPiece piece.length h (Nat.le_refl _)
    rw [ResponseReader.readAll]
    split
    · next outcome hdone =>
      rw [hdone] at hgoes
      exact hgoes
    · next following hwaits =>
      rw [hwaits] at hgoes
      obtain ⟨d, hleads, hpool, hreads⟩ := hgoes
      exact .head hleads hpool (Reads.readAll ending hreads)

/-! ## A request by itself -/

theorem Leads.sound (h : Leads config c d) (hc : c.Sound config) : d.Sound config := by
  induction h with
  | refl => exact hc
  | tail _ next ih => exact next.sound ih

/-- What a network tells of the idle connections is what is there: a connection that is not stale has nothing unread and
has not ended, and what is still to come on it comes before what it brings for a request. -/
def Shows (net : Network) (c : Correspondence) : Prop :=
  ∀ s ∈ c.pool.idleStreams, net.isStale s = false → (c.lines s).unread = [] ∧ (c.lines s).ended = false ∧
    ∀ sent, (c.lines s).coming <+: (net.reply s sent).pieces.flatten

/-- The place of a connection that is put back becomes free. -/
theorem leaves_of_putBack {p : Pool} (hp : p.Sound) (hs : s ∈ p.heldStreams) :
    Pool.Step (p.putBack s) [] (p.release s) := by
  obtain ⟨l, hl, -⟩ := hp.lane?_of_held hs
  have hlane : (p.putBack s).lane? s.target =
      some { l with held := l.held.erase s, idle := s :: l.idle, leaving := l.leaving + 1 } := by
    rw [Pool.putBack, Pool.lane?_update]
    · rw [hl]
      rfl
    · exact fun _ => rfl
  exact .leave hlane (Nat.succ_pos _)

/-- An exchange reads the response on the connection and gives the connection back. -/
theorem leads_of_exchange {net : Network} {o : Outgoing} {line : Line} {sends : Bytes}
    (hc : (c.start config o s line sends q).Sound config) (hunread : line.unread = [])
    (hsends : line.coming ++ sends = (net.reply s (o.encode config.userAgent)).pieces.flatten) :
    ∃ d taken, Leads config (c.start config o s line sends q) d ∧
      (Session.exchange net o s ⟨config, q⟩).2 = ⟨config, d.pool⟩ ∧ d.errands = c.errands ++
        [⟨o, s, sends, line.arrived, taken, .done (Session.receive net o s ⟨config, q⟩)⟩] := by
  -- all that comes arrives, and then it is read
  have hcomes : (c.start config o s line sends q).Comes config c.errands
      ⟨o, s, sends, line.arrived, [], .waiting (.new (o.method == .head) config.maxResponseBytes)⟩
      (Session.receive net o s ⟨config, q⟩) := by
    have hcoming : ((c.start config o s line sends q).lines s).coming = (line.coming ++ sends) ++ [] := by
      simp only [Correspondence.start, Function.update_self, List.append_nil]
    refine Comes.head (.single (.deliver s hcoming)) rfl (Reads.readAll _ ⟨⟨[], rfl⟩, ?_, ?_⟩)
    · simp only [Correspondence.start, Function.update_self, hunread, List.nil_append]
      exact hsends
    · simp only [Function.update_self]
  obtain ⟨d, taken, hleads, hpool, herrands⟩ := hcomes
  cases hreceived : Session.receive net o s ⟨config, q⟩ with
  | error e =>
    rw [hreceived] at hpool herrands
    refine ⟨d, taken, hleads, ?_, herrands⟩
    rw [hpool]
    simp only [Session.exchange, hreceived]
    rfl
  | ok received =>
    rw [hreceived] at hpool herrands
    simp only [Session.exchange, hreceived]
    by_cases hkeep : Session.mayKeep received = true
    · have hheld : s ∈ q.heldStreams := (hc.held s).2 ⟨_, List.mem_append_right _ (List.mem_singleton_self _), rfl, _, rfl⟩
      have hback : d.pool = q.putBack s := hpool.trans (if_pos hkeep)
      have hleaves : Step config d { d with pool := q.release s } := .tend (hback ▸ leaves_of_putBack hc.pool hheld)
      refine ⟨_, taken, hleads.tail hleaves, ?_, herrands⟩
      rw [if_pos hkeep]
    · have hdropped : d.pool = q.drop s := hpool.trans (if_neg hkeep)
      refine ⟨d, taken, hleads, ?_, herrands⟩
      rw [if_neg hkeep, hdropped]

/-- A response is that of the last request that was made, and the network has brought for this request what was still
to come on its connection, if anything was, and what the server has sent for it. -/
def Brought (net : Network) (userAgent : String) (o : Outgoing) (response : ClientResponse) (c d : Correspondence) : Prop :=
  ∃ e received, d.errands = c.errands ++ [e] ∧ e.request = o ∧ e.state = .done (.ok received) ∧
    received.response = response ∧ ∃ due, (due = [] ∨ due = (c.lines e.stream).coming) ∧
      due ++ e.sends = (net.reply e.stream (o.encode userAgent)).pieces.flatten

/-- What a session makes of a request that is given a connection can happen. -/
theorem leads_of_start {net : Network} {o : Outgoing} {line : Line} {sends : Bytes} {mid : Correspondence}
    (hleads : Leads config c mid) (hc : c.Sound config) (herrands : mid.errands = c.errands)
    (next : Step config mid (mid.start config o s line sends q)) (hunread : line.unread = [])
    (hdue : line.coming = [] ∨ line.coming = (c.lines s).coming)
    (hsends : line.coming ++ sends = (net.reply s (o.encode config.userAgent)).pieces.flatten) :
    ∃ d, Leads config c d ∧ (Session.exchange net o s ⟨config, q⟩).2 = ⟨config, d.pool⟩ ∧ c.errands <+: d.errands ∧
      ∀ response, (Session.exchange net o s ⟨config, q⟩).1 = .ok response →
        Brought net config.userAgent o response c d := by
  have hstarted := hleads.tail next
  obtain ⟨d, taken, hleads', hsession, hmade⟩ := leads_of_exchange (Leads.sound hstarted hc) hunread hsends
  rw [herrands] at hmade
  refine ⟨d, hstarted.trans hleads', hsession, hmade ▸ List.prefix_append _ _, ?_⟩
  intro response hresponse
  cases hreceived : Session.receive net o s ⟨config, q⟩ with
  | error e =>
    simp only [Session.exchange, hreceived] at hresponse
    cases hresponse
  | ok received =>
    simp only [Session.exchange, hreceived] at hresponse
    cases hresponse
    rw [hreceived] at hmade
    exact ⟨_, received, hmade, rfl, rfl, rfl, _, hdue, hsends⟩

/-- What a session makes of a request while nobody else acts can happen. -/
theorem leads_of_request (hc : c.Sound config) {net : Network} (hnet : c.Shows net) (method : Method) (url : String)
    (headers : Headers) (body : Bytes) :
    ∃ d, Leads config c d ∧ (Session.request net method url headers body ⟨config, c.pool⟩).2 = ⟨config, d.pool⟩ ∧
      c.errands <+: d.errands ∧
      ∀ response, (Session.request net method url headers body ⟨config, c.pool⟩).1 = .ok response →
        ∃ u target, Target.parse url = .ok (u, target) ∧
          Brought net config.userAgent ⟨method, u, target, headers, body⟩ response c d := by
  unfold Session.request
  split
  · exact ⟨c, .refl, rfl, List.prefix_refl _, fun response h => by cases h⟩
  · next u target hparse =>
    have hask : Leads config c _ := .single (.ask ⟨method, u, target, headers, body⟩)
    have hasked : (c.asked ++ [(⟨method, u, target, headers, body⟩ : Outgoing)])[c.pool.nextCheckout]? =
        some ⟨method, u, target, headers, body⟩ := by
      rw [hc.numbers, List.getElem?_append_right (Nat.le_refl _), Nat.sub_self]
      rfl
    have hends := Pool.checkout_ends hc.pool (Session.checkoutLimits ⟨config, c.pool⟩) net.isStale (net.connect target)
      target
    simp only []
    generalize c.pool.checkout (Session.checkoutLimits ⟨config, c.pool⟩) net.isStale (net.connect target) target =
      result at hends ⊢
    cases hends with
    | failed quiet =>
      refine ⟨_, hask.trans (leads_of_quiet quiet), rfl, List.prefix_refl _, fun response h => by cases h⟩
    | @reused mid l s quiet lane chooses found lasts =>
      have hleads := hask.trans (leads_of_quiet quiet)
      have hidle : s ∈ c.pool.idleStreams := by
        have hentered := quiet.idle ((Leads.sound hleads hc).pool.target_of_candidate lane found).2
        exact ((Pool.Step.enter target).idle hentered).resolve_left (by simp)
      obtain ⟨hunread, hlasts, hcomes⟩ := hnet s hidle lasts
      obtain ⟨sends, hsends⟩ := hcomes (Outgoing.encode config.userAgent ⟨method, u, target, headers, body⟩)
      obtain ⟨d, hd, hsession, hprefix, hbrought⟩ := leads_of_start hleads hc rfl
        (.reuse sends lane chooses found hasked hunread hlasts) hunread (.inr rfl) hsends
      exact ⟨d, hd, hsession, hprefix, fun response h => ⟨u, target, hparse, hbrought response h⟩⟩
    | @connected mid l quiet lane connects =>
      obtain ⟨d, hd, hsession, hprefix, hbrought⟩ := leads_of_start (hask.trans (leads_of_quiet quiet)) hc rfl
        (.connect _ lane connects hasked) rfl (.inl rfl) (List.nil_append _)
      exact ⟨d, hd, hsession, hprefix, fun response h => ⟨u, target, hparse, hbrought response h⟩⟩

end Correspondence

end Hypertext
