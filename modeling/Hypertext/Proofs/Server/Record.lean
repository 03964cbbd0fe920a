/-
The record of a connection: the states it has been in and how often it has begun to work on a request. A step changes
the state along a few ways only, and what a connection is doing tells its state and how far its counts have come; that
is the invariant. It holds of reads that fail as well, which pipes never have.
-/
import Hypertext.Proofs.Server.KeepAlive
import Mathlib.Data.List.Chain

namespace Hypertext

namespace ConnectionState

/-- Whether a state may follow another. -/
def canMove : ConnectionState → ConnectionState → Bool
  | .accepted, .active | .accepted, .draining | .accepted, .closed => true
  | .active, .idle | .active, .draining | .active, .closed => true
  | .idle, .active | .idle, .draining | .idle, .closed => true
  | .draining, .closed => true
  | _, _ => false

theorem canMove_closed {s : ConnectionState} (h : s ≠ .closed) : s.canMove .closed = true := by
  cases s with
  | closed => exact absurd rfl h
  | _ => rfl

theorem canMove_draining {s : ConnectionState} (h : s ≠ .closed) (h' : s ≠ .draining) :
    s.canMove .draining = true := by
  cases s with
  | closed => exact absurd rfl h
  | draining => exact absurd rfl h'
  | _ => rfl

/-- Nothing follows the end. -/
theorem closed_notMem_of_isChain {last : ConnectionState} :
    ∀ {states : List ConnectionState}, (states ++ [last]).IsChain (fun a b => a.canMove b = true) → .closed ∉ states
  | [], _ => nofun
  | s :: rest, h => by
    have hrest : .closed ∉ rest := closed_notMem_of_isChain h.of_cons
    have hs : .closed ≠ s := by
      rintro rfl
      obtain ⟨next, hnext⟩ : ∃ next, next ∈ (rest ++ [last]).head? := by
        cases rest with
        | nil => exact ⟨last, rfl⟩
        | cons t rest => exact ⟨t, rfl⟩
      have hcan := (List.isChain_cons.1 h).1 next hnext
      cases next <;> cases hcan
    exact List.not_mem_cons_of_ne_of_not_mem hs hrest

/-- A sequence of states that ends with the end has it once. -/
theorem count_closed {states : List ConnectionState} (h : states.IsChain (fun a b => a.canMove b = true))
    (hlast : states.getLast? = some .closed) : states.count .closed = 1 := by
  obtain ⟨before, rfl⟩ := List.getLast?_eq_some_iff.1 hlast
  rw [List.count_append, List.count_eq_zero_of_not_mem (closed_notMem_of_isChain h)]
  rfl

end ConnectionState

/-- Whether a connection ends for this reason because nothing comes from its peer. -/
def CloseReason.GivesUp (reason : CloseReason) : Prop := reason = .peerClosed ∨ reason = .idleTimeout

theorem Refuses.not_givesUp {reason : CloseReason} {bytes : Bytes} (h : Refuses reason bytes) : ¬reason.GivesUp := by
  cases h <;> simp [CloseReason.GivesUp]

/-- What is recorded of a connection: its changes of state, the state it is in, how many answers it has counted and how
many it has begun. -/
structure Record where
  moves : List (ConnectionState × ConnectionState)
  state : ConnectionState
  served : Nat
  answered : Nat

namespace Record

/-- The states that a connection has been in, in order. -/
def states (r : Record) : List ConnectionState := .accepted :: r.moves.map (·.2)

/-- How often a connection has begun to work on a request. -/
def entries (r : Record) : Nat := r.states.count .active

def move (next : ConnectionState) (r : Record) : Record :=
  if r.state = next then r else { r with moves := r.moves ++ [(r.state, next)], state := next }

variable {r : Record} {next : ConnectionState} {reason : CloseReason}

theorem move_of_eq (h : r.state = next) : r.move next = r := if_pos h

theorem moves_move (h : r.state ≠ next) : (r.move next).moves = r.moves ++ [(r.state, next)] := by
  rw [move, if_neg h]

theorem states_move (h : r.state ≠ next) : (r.move next).states = r.states ++ [next] := by
  rw [states, moves_move h, List.map_append]
  rfl

@[simp]
theorem state_move (r : Record) (next : ConnectionState) : (r.move next).state = next := by
  unfold move
  split
  · next h => exact h
  · rfl

@[simp]
theorem served_move (r : Record) (next : ConnectionState) : (r.move next).served = r.served := by
  unfold move
  split <;> rfl

@[simp]
theorem answered_move (r : Record) (next : ConnectionState) : (r.move next).answered = r.answered := by
  unfold move
  split <;> rfl

theorem entries_move (h : next ≠ .active) : (r.move next).entries = r.entries := by
  by_cases hs : r.state = next
  · rw [move_of_eq hs]
  · rw [entries, states_move hs, List.count_append, List.count_singleton]
    simp [entries, h]

theorem entries_move_active (h : r.state ≠ .active) : (r.move .active).entries = r.entries + 1 := by
  rw [entries, states_move h, List.count_append]
  rfl

/-! ## States one after another -/

/-- The states follow one another as they may, each change of state is recorded, and the last state is the one that the
connection is in. -/
structure Trailed (r : Record) : Prop where
  chain : r.states.IsChain (fun a b => a.canMove b = true)
  pairs : r.moves = r.states.zip r.states.tail
  last : r.states.getLast? = some r.state

theorem zip_tail_concat {α : Type} {last : α} (next : α) :
    ∀ {l : List α}, l.getLast? = some last → (l ++ [next]).zip (l ++ [next]).tail = l.zip l.tail ++ [(last, next)]
  | [], h => by cases h
  | [a], h => by
    cases h
    rfl
  | a :: b :: rest, h => by
    have hrest : (b :: rest).getLast? = some last := by rwa [List.getLast?_cons_cons] at h
    have ih := zip_tail_concat next hrest
    simp only [List.cons_append, List.tail_cons, List.zip_cons_cons] at ih ⊢
    rw [ih]

theorem Trailed.move (h : r.Trailed) (hcan : r.state ≠ next → r.state.canMove next = true) : (r.move next).Trailed := by
  by_cases hs : r.state = next
  · rw [move_of_eq hs]
    exact h
  · constructor
    case chain =>
      rw [states_move hs]
      refine h.chain.append (List.isChain_singleton _) ?_
      intro s hlast t ht
      rw [h.last] at hlast
      cases hlast
      cases ht
      exact hcan hs
    case pairs => rw [moves_move hs, states_move hs, zip_tail_concat next h.last, ← h.pairs]
    case last => rw [states_move hs, List.getLast?_concat, state_move]

/-! ## What a phase tells of the record -/

/-- How the counts stand: so many requests have been begun and not counted as answered, and so many answers have been
begun and not counted. -/
structure Counts (begun answering : Nat) (r : Record) : Prop where
  entries : r.entries = r.served + begun
  answered : r.answered = r.served + answering

/-- Whether no request is worked on and the connection is not about to end. -/
def Waits (r : Record) : Prop := r.state = .accepted ∨ r.state = .idle

/-- The record of a connection that has ended for a reason. -/
structure Concludes (reason : CloseReason) (r : Record) : Prop where
  state : r.state = .closed
  entries : r.entries = r.served ∨ r.entries = r.served + 1 ∧ (reason = .forced ∨ reason = .io)
  answered : r.answered ≤ r.served + 1
  waited : reason.GivesUp → r.moves.getLast? = some (.accepted, .closed) ∨ r.moves.getLast? = some (.idle, .closed)

/-- What holds of the record in a phase. -/
def Fits (r : Record) : Phase → Prop
  | .examining _ | .reading _ => r.Waits ∧ r.Counts 0 0
  | .dispatching _ | .handling .. => r.state = .active ∧ r.Counts 1 0
  | .answering _ sequel =>
    (r.state = .active ∨ r.state = .draining ∧ sequel ≠ .goOn) ∧ (∀ reason, sequel = .close reason → ¬reason.GivesUp) ∧
      r.Counts 1 1
  | .refusing _ reason => (r.Waits ∨ r.state = .draining) ∧ ¬reason.GivesUp ∧ r.Counts 0 0
  | .lingering _ => r.state = .draining ∧ r.Counts 0 0
  | .closed reason => r.Concludes reason

/-- The record is in order for what the connection is doing. -/
structure Stands (phase : Phase) (r : Record) : Prop extends r.Trailed where
  fits : r.Fits phase

variable {begun answering : Nat} {phase : Phase} {sequel : Sequel}

theorem Counts.move (h : r.Counts begun answering) (hne : next ≠ .active) : (r.move next).Counts begun answering where
  entries := by rw [entries_move hne, served_move, h.entries]
  answered := by rw [answered_move, served_move, h.answered]

/-- The request is answered, and counted. -/
theorem Counts.serve (h : r.Counts 1 1) : { r with served := r.served + 1 }.Counts 0 0 := ⟨h.entries, h.answered⟩

theorem Waits.open (h : r.Waits) : r.state ≠ .closed := by
  intro hs
  rcases h with h | h <;> cases h.symm.trans hs

/-- A connection that works on a request has not ended. -/
theorem open_of_working {p : Prop} (h : r.state = .active ∨ r.state = .draining ∧ p) : r.state ≠ .closed := by
  intro hs
  rcases h with h | ⟨h, -⟩ <;> cases h.symm.trans hs

/-- A request is begun. -/
theorem Trailed.take (h : r.Trailed) (hwaits : r.Waits) (hcounts : r.Counts 0 0) (request : Request) :
    (r.move .active).Stands (.dispatching request) := by
  have hcan : r.state.canMove .active = true ∧ r.state ≠ .active := by
    rcases hwaits with hs | hs
    all_goals
      rw [hs]
      exact ⟨rfl, nofun⟩
  refine ⟨h.move fun _ => hcan.1, state_move r .active, ?_, ?_⟩
  · rw [entries_move_active hcan.2, served_move, hcounts.entries]
  · rw [answered_move, served_move, hcounts.answered]

/-- A connection ends. -/
theorem Trailed.finish (h : r.Trailed) (hopen : r.state ≠ .closed) (hcounts : r.Counts begun answering)
    (hbegun : begun = 0 ∨ begun = 1 ∧ (reason = .forced ∨ reason = .io)) (hanswering : answering ≤ 1)
    (hwaits : reason.GivesUp → r.Waits) : (r.move .closed).Stands (.closed reason) := by
  have hmoved : (r.move .closed).Counts begun answering := hcounts.move nofun
  have hentries := hmoved.entries
  have hanswered := hmoved.answered
  have hconcludes : (r.move .closed).Concludes reason := by
    constructor
    case state => exact state_move r .closed
    case entries =>
      rcases hbegun with rfl | ⟨rfl, hreason⟩
      · exact .inl hentries
      · exact .inr ⟨hentries, hreason⟩
    case answered => omega
    case waited =>
      intro hgivesUp
      rw [moves_move hopen, List.getLast?_concat]
      refine (hwaits hgivesUp).imp ?_ ?_
      all_goals
        intro hs
        rw [hs]
  exact ⟨h.move fun _ => ConnectionState.canMove_closed hopen, hconcludes⟩

/-- A connection begins to end because of a shutdown. -/
theorem Trailed.drain (h : r.Trailed) (hopen : r.state ≠ .closed) (hcounts : r.Counts 0 0) (deadline : Nat) :
    (r.move .draining).Stands (.lingering deadline) :=
  ⟨h.move (ConnectionState.canMove_draining hopen), state_move r .draining, hcounts.move nofun⟩

/-- An answer to the request that is worked on is begun. -/
theorem Trailed.answer (h : r.Trailed) (hstate : r.state = .active ∨ r.state = .draining ∧ sequel ≠ .goOn)
    (hclose : ∀ reason, sequel = .close reason → ¬reason.GivesUp) (hcounts : r.Counts 1 0) (bytes : Bytes) :
    { r with answered := r.answered + 1 }.Stands (.answering bytes sequel) := by
  have hanswered := hcounts.answered
  exact ⟨⟨h.chain, h.pairs, h.last⟩, hstate, hclose, hcounts.entries, by show r.answered + 1 = r.served + 1; omega⟩

end Record

/-! ## What a step adds to the record -/

namespace Connection

def record (c : Connection) : Record := ⟨c.moves, c.state, c.served, c.answered.length⟩

variable (c : Connection)

theorem record_note_dispatched (request : Request) : (c.note (.dispatched request)).record = c.record := by
  simp [record, moves, answered, note]

theorem record_note_answered (bytes : Bytes) :
    (c.note (.answered bytes)).record = { c.record with answered := c.record.answered + 1 } := by
  simp [record, moves, answered, note]

theorem record_refuse (fault : Status) (message : String) (reason : CloseReason) :
    (c.refuse fault message reason).record = c.record := by
  simp [refuse, record, moves, answered, note]

theorem record_move (next : ConnectionState) : (c.move next).record = c.record.move next := by
  by_cases hs : c.state = next
  · rw [move, if_pos hs, Record.move_of_eq hs]
  · have hs' : c.record.state ≠ next := hs
    rw [move, if_neg hs, Record.move, if_neg hs']
    simp [record, moves, answered, note]

theorem record_finish (reason : CloseReason) : (c.finish reason).record = c.record.move .closed := record_move c .closed

theorem record_drain (now : Nat) : (c.drain now).record = c.record.move .draining := record_move c .draining

variable {c} {rules : ConnectionRules} {now : Nat} {status : ShutdownState} {after : Connection}

/-- An answer to the request that is worked on is begun; it does not go on if the shutdown has. -/
theorem record_answer (h : c.record.Trailed) (hactive : c.state = .active) (hcounts : c.record.Counts 1 0)
    (outcome : Except DispatchError Response) (x : Exchange) :
    (c.answer status outcome x).record.Stands (c.answer status outcome x).phase := by
  have hclose : ∀ reason, (x.answer status.isRunning outcome).sequel = .close reason → ¬reason.GivesUp := by
    intro reason hsequel
    rcases Exchange.answer_close hsequel with rfl | rfl | rfl <;> simp [CloseReason.GivesUp]
  unfold answer
  split
  · have hanswer := h.answer (.inl hactive) hclose hcounts (x.answer status.isRunning outcome).bytes
    rw [← record_note_answered] at hanswer
    exact hanswer
  · next hstops =>
    have hgo : (x.answer status.isRunning outcome).sequel ≠ .goOn := by
      rw [Ne, Exchange.answer_goOn_iff]
      simp [Exchange.keeps, hstops]
    have hdrained : (c.move .draining).record.Trailed := by
      rw [record_move]
      exact h.move fun _ => by rw [show c.record.state = .active from hactive]; rfl
    have hmoved : (c.move .draining).record.Counts 1 0 := by
      rw [record_move]
      exact hcounts.move fun hidle => by cases hidle
    have hanswer := hdrained.answer (.inr ⟨state_move c .draining, hgo⟩) hclose hmoved
      (x.answer status.isRunning outcome).bytes
    rw [← record_note_answered] at hanswer
    exact hanswer

/-- What follows an answer that has been written and counted. -/
theorem record_follow {sequel : Sequel} (h : c.record.Trailed)
    (hstate : c.state = .active ∨ c.state = .draining ∧ sequel ≠ .goOn)
    (hclose : ∀ reason, sequel = .close reason → ¬reason.GivesUp) (hcounts : c.record.Counts 0 0) :
    (c.follow rules now sequel).record.Stands (c.follow rules now sequel).phase := by
  have hopen : c.record.state ≠ .closed := Record.open_of_working hstate
  cases sequel with
  | goOn =>
    have hactive : c.record.state = .active := hstate.resolve_right fun h => h.2 rfl
    have hidle : (c.record.move .idle).Trailed := h.move fun _ => by rw [hactive]; rfl
    have hcounted : (c.record.move .idle).Counts 0 0 := hcounts.move nofun
    rw [← record_move] at hidle hcounted
    exact ⟨hidle, .inr (state_move c .idle), hcounted⟩
  | drain =>
    show (c.drain now).record.Stands _
    rw [record_drain]
    exact h.drain hopen hcounts _
  | close reason =>
    show (c.finish reason).record.Stands _
    rw [record_finish]
    exact h.finish hopen hcounts (.inl rfl) (Nat.zero_le _) fun hgivesUp => absurd hgivesUp (hclose reason rfl)

/-- A connection that takes leave dispatches nothing any more. -/
theorem quiet_leave (c before : Connection) : before.Quiet c.leave := by
  apply quiet_of_works
  unfold leave
  split <;> rfl

/-- A connection that has read what its peer had sent ends, or refuses it. -/
theorem record_leave {deadline : Nat} (h : c.record.Trailed) (hfits : c.record.Fits (.lingering deadline)) :
    c.leave.record.Stands c.leave.phase := by
  obtain ⟨hdraining, hcounts⟩ := hfits
  have hopen : c.record.state ≠ .closed := by
    rw [hdraining]
    exact nofun
  have hreason : ¬CloseReason.GivesUp .drained := Refuses.drained.not_givesUp
  unfold leave
  split
  · rw [record_finish]
    exact h.finish hopen hcounts (.inl rfl) (Nat.zero_le _) fun hgivesUp => absurd hgivesUp hreason
  · rw [record_refuse]
    exact ⟨h, .inr hdraining, hreason, hcounts⟩

/-- A connection that is forced to end was at work. -/
theorem record_force (h : c.record.Stands c.phase) (hworks : c.phase.works = true) :
    (c.finish .forced).record.Stands (.closed .forced) := by
  have hfits := h.fits
  have hwork : c.record.state ≠ .closed ∧ ∃ answering, answering ≤ 1 ∧ c.record.Counts 1 answering := by
    cases hp : c.phase with
    | dispatching | handling =>
      rw [hp] at hfits
      obtain ⟨hactive, hcounts⟩ := hfits
      refine ⟨?_, 0, Nat.zero_le _, hcounts⟩
      rw [hactive]
      exact nofun
    | answering =>
      rw [hp] at hfits
      obtain ⟨hstate, -, hcounts⟩ := hfits
      exact ⟨Record.open_of_working hstate, 1, Nat.le_refl _, hcounts⟩
    | _ =>
      rw [hp] at hworks
      cases hworks
  obtain ⟨hopen, answering, hle, hcounts⟩ := hwork
  rw [record_finish]
  refine h.toTrailed.finish hopen hcounts (.inr ⟨rfl, .inl rfl⟩) hle ?_
  rintro (h | h) <;> cases h

/-- A step keeps the record in order. -/
theorem record_step (h : c.record.Stands c.phase) (hstep : c.step rules now status = some after) :
    after.record.Stands after.phase := by
  have hfits := h.fits
  have htrailed := h.toTrailed
  cases step_advance hstep with
  | drain hp =>
    have hwaits : c.record.Waits ∧ c.record.Counts 0 0 := by
      rcases hp with hp | hp
      all_goals
        rw [hp] at hfits
        exact hfits
    rw [record_drain]
    exact htrailed.drain hwaits.1.open hwaits.2 _
  | wait hp =>
    rw [hp] at hfits
    exact ⟨htrailed, hfits⟩
  | take hp =>
    rw [hp] at hfits
    rw [record_move, phase_move]
    exact htrailed.take hfits.1 hfits.2 _
  | refuse hp hs found =>
    rw [hp] at hfits
    rw [record_refuse]
    exact ⟨htrailed, .inl hfits.1, (Refuses.of_ofBuffer found).not_givesUp, hfits.2⟩
  | read hp =>
    rw [hp] at hfits
    exact ⟨htrailed, hfits⟩
  | giveUp hp hs found why =>
    rw [hp] at hfits
    rw [record_finish]
    exact htrailed.finish hfits.1.open hfits.2 (.inl rfl) (Nat.zero_le _) fun _ => hfits.1
  | force hp => exact record_force h hp
  | @answer request outcome hp =>
    rw [hp] at hfits
    rw [← record_note_dispatched c request] at htrailed hfits
    exact record_answer htrailed hfits.1 hfits.2 _ _
  | @begin request reaction hp =>
    rw [hp] at hfits
    rw [← record_note_dispatched c request] at htrailed hfits
    exact ⟨htrailed, hfits⟩
  | conclude hp =>
    rw [hp] at hfits
    exact record_answer htrailed hfits.1 hfits.2 _ _
  | follow hp =>
    rw [hp] at hfits
    obtain ⟨hstate, hclose, hcounts⟩ := hfits
    exact record_follow ⟨htrailed.chain, htrailed.pairs, htrailed.last⟩ hstate hclose hcounts.serve
  | breakOff hp =>
    rw [hp] at hfits
    obtain ⟨hstate, -, hcounts⟩ := hfits
    rw [record_finish]
    refine htrailed.finish (Record.open_of_working hstate) hcounts (.inr ⟨rfl, .inr rfl⟩) (Nat.le_refl _) ?_
    rintro (h | h) <;> cases h
  | write hp =>
    rw [hp] at hfits
    exact ⟨htrailed, hfits⟩
  | dismiss hp =>
    rw [hp] at hfits
    obtain ⟨hstate, hreason, hcounts⟩ := hfits
    have hopen : c.record.state ≠ .closed := by
      rcases hstate with hwaits | hs
      · exact hwaits.open
      · rw [hs]
        exact nofun
    rw [record_finish]
    exact htrailed.finish hopen hcounts (.inl rfl) (Nat.zero_le _) fun hgivesUp => absurd hgivesUp hreason
  | writeRefusal hp =>
    rw [hp] at hfits
    exact ⟨htrailed, hfits⟩
  | linger hp => exact h
  | leave hp found =>
    rw [hp] at hfits
    have hleave := record_leave htrailed hfits
    rw [Connection.leave, if_pos (List.isEmpty_iff.2 found)] at hleave
    exact hleave
  | turnAway hp found =>
    rw [hp] at hfits
    have hleave := record_leave htrailed hfits
    rw [Connection.leave, if_neg (mt List.isEmpty_iff.1 found)] at hleave
    exact hleave

/-- So does a read that fails. -/
theorem record_failRead (h : c.record.Stands c.phase) (hfail : c.failRead status = some after) :
    after.record.Stands after.phase := by
  have hfits := h.fits
  unfold failRead at hfail
  split at hfail
  · next hp =>
    rw [hp] at hfits
    split at hfail
    · cases hfail
      rw [record_finish]
      exact h.toTrailed.finish hfits.1.open hfits.2 (.inl rfl) (Nat.zero_le _) fun _ => hfits.1
    · cases hfail
  · next hp =>
    rw [hp] at hfits
    cases hfail
    exact record_leave h.toTrailed hfits
  · cases hfail

end Connection

/-! ## Record and ledger of a lifetime -/

namespace Lifetime

/-- There is an answer to the i-th request, and it has been written, after those before it. -/
def Delivered (rules : ConnectionRules) (t : Lifetime) (i : Nat) : Prop :=
  i < (t.answers rules).length ∧ t.Wrote rules i

instance (rules : ConnectionRules) (t : Lifetime) (i : Nat) : Decidable (t.Delivered rules i) := by
  unfold Delivered Wrote
  infer_instance

/-- A read has failed while a request was awaited: all answers had been counted then. -/
structure Failed (rules : ConnectionRules) (t : Lifetime) : Prop extends t.Sound where
  phase : t.connection.phase = .closed .io
  account : t.ledger.Account rules
  complete : t.ledger.served = (t.ledger.answers rules).length

/-- The record is in order, and the ledger as well unless a read has failed. -/
structure Booked (rules : ConnectionRules) (t : Lifetime) : Prop where
  record : t.connection.record.Stands t.connection.phase
  ledger : t.Orderly rules ∨ t.Failed rules

variable {rules : ConnectionRules} {t u : Lifetime} {c : Connection} {reason : CloseReason} {i : Nat}

theorem booked_start (rules : ConnectionRules) (id : ConnectionId) (capacity now : Nat) :
    (start rules id capacity now).Booked rules where
  record := ⟨⟨List.isChain_singleton _, rfl, rfl⟩, .inl rfl, rfl, rfl⟩
  ledger := .inl (orderly_start id capacity now)

theorem Failed.move (h : t.Failed rules) (hm : Move rules t u) : u.Failed rules := by
  have ht := h.toSound
  cases hm with
  | step table hstep =>
    rw [Connection.step, h.phase] at hstep
    cases hstep
  | receive most =>
    have hledger := ht.ledger_receive most
    refine ⟨⟨ht.calls, Pipe.waiting_read ht.waiting most⟩, h.phase, ?_, ?_⟩
    · rw [hledger]
      exact h.account
    · rw [hledger]
      exact h.complete
  | _ => exact ⟨⟨ht.calls, ht.waiting⟩, h.phase, h.account, h.complete⟩

theorem Booked.move (h : t.Booked rules) (hm : Move rules t u) : u.Booked rules := by
  constructor
  case record =>
    cases hm with
    | step table hstep => exact Connection.record_step h.record hstep
    | _ => exact h.record
  case ledger => exact h.ledger.imp (·.move hm) (·.move hm)

theorem Run.booked (h : Run rules t u) (ht : t.Booked rules) : u.Booked rules := by
  induction h with
  | refl => exact ht
  | move _ next ih => exact ih.move next

/-- While a request is awaited every answer has been counted. -/
theorem Orderly.failed (ho : t.Orderly rules) {deadline : Nat} (hp : t.connection.phase = .reading deadline) :
    { t with connection := t.connection.finish .io }.Failed rules := by
  have hstands := ho.stands
  rw [hp] at hstands
  obtain ⟨htally, -, -⟩ := hstands
  obtain ⟨hdispatched, hserved, hanswered, hrefused, hbytes, hwaiting⟩ :=
    Connection.sameAccount_finish t.connection .io
  have hledger : { t with connection := t.connection.finish .io }.ledger = t.ledger := by
    simp only [ledger, written, hserved, hanswered, hrefused, hbytes]
  constructor
  case toSound => exact ⟨ho.calls.trans hdispatched.symm, hwaiting.trans ho.waiting⟩
  case phase => rfl
  case account =>
    rw [hledger]
    exact htally.account (Nat.zero_le _)
  case complete =>
    rw [hledger]
    exact htally.served

/-- A read that fails keeps record and ledger in order. -/
theorem Booked.failRead (h : t.Booked rules) (hfail : t.connection.failRead t.shutdown = some c) :
    { t with connection := c }.Booked rules := by
  refine ⟨Connection.record_failRead h.record hfail, ?_⟩
  unfold Connection.failRead at hfail
  rcases h.ledger with ho | hf
  · split at hfail
    · next hp =>
      split at hfail
      · cases hfail
        exact .inr (ho.failed hp)
      · cases hfail
    · next hp =>
      cases hfail
      obtain ⟨hcalls, hsamples⟩ := Connection.quiet_leave t.connection t.connection rules.dispatcher t.shutdown
      have hleave := ho.leave rules.dispatcher hp
      rw [stepped, hcalls, hsamples, List.append_nil, List.append_nil] at hleave
      exact .inl hleave
    · cases hfail
  -- a connection that has ended does not read
  · rw [hf.phase] at hfail
    cases hfail

/-- What the ledger of a connection tells that has ended. -/
theorem Booked.closed (h : t.Booked rules) (hp : t.connection.phase = .closed reason) :
    t.Sound ∧ t.ledger.Account rules ∧
      (bytesOf (t.ledger.answers rules) <+: t.ledger.written → t.ledger.served = (t.ledger.answers rules).length) := by
  rcases h.ledger with ho | hf
  · have hover := ho.stands
    rw [hp] at hover
    exact ⟨ho.toSound, Ledger.Over.toAccount hover, Ledger.Over.complete hover⟩
  · exact ⟨hf.toSound, hf.account, fun _ => hf.complete⟩

/-- Of the answers to the requests those have been counted that have been written. -/
theorem Booked.served_iff (h : t.Booked rules) (hp : t.connection.phase = .closed reason) :
    i < t.connection.served ↔ t.Delivered rules i := by
  obtain ⟨-, haccount, hcomplete⟩ := h.closed hp
  have hserved : t.connection.served ≤ (t.answers rules).length := haccount.served_le
  constructor
  · intro hi
    refine ⟨by omega, ?_⟩
    have hcounted : bytesOf ((t.answers rules).take t.connection.served) <+: t.written := haccount.counted
    exact (bytesOf_take_le (t.answers rules) hi).trans hcounted
  · rintro ⟨hi, hwrote⟩
    by_contra hle
    -- at most one answer has been begun and not been counted
    have hfits := h.record.fits
    rw [hp] at hfits
    have hanswered : t.connection.answered.length ≤ t.connection.served + 1 := Record.Concludes.answered hfits
    have hanswers : t.connection.answered = (t.answers rules).map (·.bytes) := haccount.answered
    rw [hanswers, List.length_map] at hanswered
    rw [Wrote, List.take_of_length_le (by omega)] at hwrote
    have hall : t.connection.served = (t.answers rules).length := hcomplete hwrote
    omega

/-- How many answers have been counted: those to dispatched requests that have been written. -/
theorem Booked.served_eq (h : t.Booked rules) (hp : t.connection.phase = .closed reason) :
    t.connection.served = (List.range t.connection.dispatched.length).countP (fun i => decide (t.Delivered rules i)) := by
  obtain ⟨hsound, haccount, -⟩ := h.closed hp
  have hserved : t.connection.served ≤ (t.answers rules).length := haccount.served_le
  have hanswers : (t.answers rules).length = t.sampled.length := Ledger.length_answers haccount.sampled_le
  have hcalls : t.calls.length = t.connection.dispatched.length := by
    rw [← hsound.calls, List.length_map]
  have hsampled : t.sampled.length ≤ t.calls.length := haccount.sampled_le
  obtain ⟨later, hlater⟩ := Nat.exists_eq_add_of_le (show t.connection.served ≤ t.connection.dispatched.length by omega)
  simp only [← h.served_iff hp]
  rw [hlater, List.range_add, List.countP_append]
  have hearlier : (List.range t.connection.served).countP (fun i => decide (i < t.connection.served)) =
      t.connection.served := by
    rw [List.countP_eq_length.2, List.length_range]
    simp
  have hnone : ((List.range later).map (t.connection.served + ·)).countP (fun i => decide (i < t.connection.served)) =
      0 := by
    rw [List.countP_eq_zero]
    simp
  omega

end Lifetime

end Hypertext
