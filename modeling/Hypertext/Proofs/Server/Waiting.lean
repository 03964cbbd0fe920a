/-
A connection goes on until it has to wait. Each step lowers what it has to do, which is a matter of the bytes that have
come and of its phase; so the steps that a run may take are always enough, and after a run nothing is due: whatever
the connection waits for comes from its peer, from a handler or with time.
-/
import Hypertext.Proofs.Server.Lifetime

namespace Hypertext

namespace Connection

/-- How many steps a phase takes, with the bytes that its connection reads counted apart. -/
def stage (c : Connection) : Nat :=
  match c.phase with
  | .dispatching _ => 7
  | .handling .. => 6
  | .answering rest _ => if rest = [] ∨ c.outbound.room = 0 then 4 else 5
  | .examining _ => 3
  | .reading _ => 2
  | .refusing rest _ => if rest = [] ∨ c.outbound.room = 0 then 1 else 2
  | .lingering _ => 1
  | .closed _ => 0

/-- How much a connection has to do before it has to wait, at most. -/
def load (c : Connection) : Nat := 7 * c.inbound.contents.length + 5 * c.buffer.bytes.length + c.stage

variable {rules : ConnectionRules} {now : Nat} {status : ShutdownState} {c after : Connection}

theorem stage_le (c : Connection) : c.stage ≤ 7 := by
  unfold stage
  split
  case h_3 | h_6 => split <;> omega
  all_goals omega

/-- Who can take a step has something to do. -/
theorem stage_pos (h : ∀ reason, c.phase ≠ .closed reason) : 0 < c.stage := by
  unfold stage
  split
  case h_3 | h_6 => split <;> omega
  case h_8 reason hp => exact absurd hp (h reason)
  all_goals omega

/-- After a write there is nothing left, or no room. -/
theorem write_or_full (rest : Bytes) (p : Pipe) : (p.write rest).1 = [] ∨ (p.write rest).2.room = 0 := by
  simp only [Pipe.write, Pipe.room, List.drop_eq_nil_iff, List.length_append, List.length_take]
  omega

/-- Reading is work that is done. -/
theorem load_read (hbytes : c.inbound.bytes ≠ []) :
    7 * c.read.inbound.contents.length + 5 * c.read.buffer.bytes.length + 2 ≤
      7 * c.inbound.contents.length + 5 * c.buffer.bytes.length := by
  have hlength := congrArg List.length c.read_unread
  have hread := c.length_read hbytes
  simp only [List.length_append] at hlength
  omega

theorem load_finish (reason : CloseReason) (h : ∀ reason, c.phase ≠ .closed reason) :
    (c.finish reason).load < c.load := by
  have hpos := stage_pos h
  have hbuffer : (c.finish reason).buffer = c.buffer := buffer_move c .closed
  have hinbound : (c.finish reason).inbound.contents = c.inbound.contents := rfl
  have hstage : (c.finish reason).stage = 0 := rfl
  rw [load, load, hbuffer, hinbound, hstage]
  omega

/-- A step that reads nothing and leaves the buffer as it is goes to an earlier stage. -/
theorem load_lt_of_stage (hinbound : after.inbound = c.inbound) (hbuffer : after.buffer = c.buffer)
    (hstage : after.stage < c.stage) : after.load < c.load := by
  rw [load, load, hinbound, hbuffer]
  omega

theorem stage_of_answering {rest : Bytes} {sequel : Sequel} (h : c.phase = .answering rest sequel) :
    4 ≤ c.stage ∧ c.stage ≤ 5 := by
  simp only [stage, h]
  split <;> omega

/-- To begin to answer a request is to have its outcome. -/
theorem load_answer {d : Connection} (outcome : Except DispatchError Response) (x : Exchange)
    (hinbound : d.inbound = c.inbound) (hbuffer : d.buffer = c.buffer) (hstage : 6 ≤ c.stage) :
    (d.answer status outcome x).load < c.load := by
  have hle : (d.answer status outcome x).stage ≤ 5 := (stage_of_answering rfl).2
  exact load_lt_of_stage ((inbound_answer d _ _ _).trans hinbound) ((buffer_answer d _ _ _).trans hbuffer) (by omega)

theorem load_refuse (fault : Status) (message : String) (reason : CloseReason) (h : 3 ≤ c.stage + 5 * c.buffer.bytes.length) :
    (c.refuse fault message reason).load < c.load := by
  have hstage : (c.refuse fault message reason).stage ≤ 2 := by
    unfold refuse stage
    simp only []
    split <;> omega
  have hbuffer : (c.refuse fault message reason).buffer.bytes.length = 0 := rfl
  have hinbound : (c.refuse fault message reason).inbound = c.inbound := rfl
  rw [load, load, hbuffer, hinbound]
  omega

/-- Each step leaves less to do. -/
theorem Advance.load_lt (h : Advance rules now status c after) : after.load < c.load := by
  cases h with
  | drain hp =>
    refine load_lt_of_stage (inbound_move c _) (buffer_move c _) ?_
    show 1 < c.stage
    rcases hp with hp | hp <;> simp only [stage, hp] <;> omega
  | wait hp =>
    refine load_lt_of_stage rfl rfl ?_
    simp only [stage, hp]
    omega
  | @take deadline request rest hp hs found =>
    have hlt := Admission.serve_lt found
    have hstage : c.stage = 3 := by simp only [stage, hp]
    have hafter : ({ c with phase := .dispatching request, buffer := c.buffer.keep rest }.move .active).stage = 7 := by
      simp only [stage, phase_move]
    have hinbound : ({ c with phase := .dispatching request, buffer := c.buffer.keep rest }.move .active).inbound =
      c.inbound := inbound_move _ _
    have hbuffer : ({ c with phase := .dispatching request, buffer := c.buffer.keep rest }.move .active).buffer =
      c.buffer.keep rest := buffer_move _ _
    rw [load, load, hafter, hstage, hinbound, hbuffer, ReadBuffer.bytes_keep]
    omega
  | refuse hp =>
    refine load_refuse _ _ _ ?_
    simp only [stage, hp]
    omega
  | read hp hs found =>
    have hread := load_read found
    have hstage : c.stage = 2 := by simp only [stage, hp]
    have hafter : (c.read.await rules now).stage = 3 := rfl
    have hinbound : (c.read.await rules now).inbound = c.read.inbound := rfl
    have hbuffer : (c.read.await rules now).buffer = c.read.buffer := rfl
    rw [load, load, hafter, hstage, hinbound, hbuffer]
    omega
  | giveUp hp => exact load_finish _ fun _ => by rw [hp]; nofun
  | force hp =>
    refine load_finish _ fun reason hclosed => ?_
    rw [hclosed] at hp
    cases hp
  | answer hp =>
    refine load_answer _ _ rfl rfl ?_
    simp only [stage, hp]
    omega
  | begin hp =>
    refine load_lt_of_stage rfl rfl ?_
    simp only [stage, hp]
    omega
  | conclude hp =>
    refine load_answer _ _ rfl rfl ?_
    simp only [stage, hp]
    omega
  | @follow sequel hp =>
    have hstage : c.stage = 4 := by simp [stage, hp]
    cases sequel with
    | goOn =>
      refine load_lt_of_stage (inbound_move _ _) (buffer_move _ _) ?_
      rw [hstage]
      exact Nat.lt_add_one 3
    | drain =>
      refine load_lt_of_stage (inbound_move _ _) (buffer_move _ _) ?_
      rw [hstage]
      exact Nat.lt_of_sub_pos (Nat.zero_lt_succ 2)
    | close reason =>
      have hopen : ∀ reason, c.phase ≠ .closed reason := fun _ => by rw [hp]; nofun
      have hlt : (finish reason { c with served := c.served + 1 }).load < { c with served := c.served + 1 }.load :=
        load_finish reason hopen
      exact hlt
  | breakOff hp => exact load_finish _ fun _ => by rw [hp]; nofun
  | @write rest sequel hp more runs room =>
    -- what does not go in finds no room any more, which is as good as nothing being left
    refine load_lt_of_stage rfl rfl ?_
    have hstage : c.stage = 5 := by simp [stage, hp, more, Nat.ne_of_gt room]
    have hafter : stage { c with phase := .answering (c.outbound.write rest).1 sequel, outbound := (c.outbound.write rest).2 } = 4 :=
      if_pos (write_or_full rest c.outbound)
    rw [hstage, hafter]
    exact Nat.lt_add_one 4
  | dismiss hp => exact load_finish _ fun _ => by rw [hp]; nofun
  | @writeRefusal rest reason hp more opened room =>
    refine load_lt_of_stage rfl rfl ?_
    have hstage : c.stage = 2 := by simp [stage, hp, more, Nat.ne_of_gt room]
    have hafter : stage { c with phase := .refusing (c.outbound.write rest).1 reason, outbound := (c.outbound.write rest).2 } = 1 :=
      if_pos (write_or_full rest c.outbound)
    rw [hstage, hafter]
    exact Nat.lt_add_one 1
  | linger hp found =>
    -- the phase stays, so it is the bytes that have been read that count
    have hread := load_read found
    have hphase : c.read.phase = c.phase := rfl
    have hafter : c.read.stage = c.stage := by
      simp only [stage, hphase, hp]
    rw [load, load, hafter]
    omega
  | leave hp => exact load_finish _ fun _ => by rw [hp]; nofun
  | turnAway hp found =>
    refine load_refuse _ _ _ ?_
    have hpos := List.length_pos_iff.2 found
    omega

/-! ## Runs -/

/-- So many steps as there is work are enough. -/
theorem step_runSteps (rules : ConnectionRules) (now : Nat) (status : ShutdownState) :
    ∀ (n : Nat) (c : Connection), c.load ≤ n →
      (c.runSteps rules now status n).step rules now status = none
  | 0, c, h => by
    -- without any work left no step is to be taken
    show c.step rules now status = none
    cases hs : c.step rules now status with
    | none => rfl
    | some next =>
      have hlt := (step_advance hs).load_lt
      omega
  | n + 1, c, h => by
    rw [runSteps]
    cases hs : c.step rules now status with
    | none => exact hs
    | some next =>
      have hlt := (step_advance hs).load_lt
      exact step_runSteps rules now status n next (by omega)

/-- A run ends where the connection has to wait. -/
theorem waits_run (rules : ConnectionRules) (now : Nat) (status : ShutdownState) (c : Connection) :
    (c.run rules now status).step rules now status = none := by
  refine step_runSteps rules now status _ c ?_
  have hstage := c.stage_le
  simp only [load, Pipe.contents, List.length_append]
  omega

/-- Who has to wait does so for a time to come. -/
theorem deadline_of_waits {deadline : Nat} (h : c.step rules now status = none) (hd : c.deadline? = some deadline) :
    now < deadline := by
  cases hp : c.phase with
  | reading due =>
    obtain rfl : due = deadline := by simpa [deadline?, hp] using hd
    simp only [step, hp, awaitBytes] at h
    grind
  | lingering due =>
    obtain rfl : due = deadline := by simpa [deadline?, hp] using hd
    simp only [step, hp, linger] at h
    grind
  | handling exchange due ends completion =>
    obtain rfl : due = deadline := by simpa [deadline?, hp] using hd
    simp only [step, hp, awaitHandler] at h
    grind
  | _ => simp [deadline?, hp] at hd

theorem handlerEnds_of_waits {ends : Nat} (h : c.step rules now status = none) (he : c.handlerEnds? = some ends) :
    now < ends := by
  cases hp : c.phase with
  | handling exchange deadline due completion =>
    obtain rfl : due = ends := by simpa [handlerEnds?, hp] using he
    simp only [step, hp, awaitHandler] at h
    grind
  | _ => simp [handlerEnds?, hp] at he

/-- Nobody waits with an answer that has been written. -/
theorem not_answered_of_waits (h : c.step rules now status = none) (sequel : Sequel) :
    c.phase ≠ .answering [] sequel := by
  intro hp
  simp only [step, hp, writeAnswer, List.isEmpty_nil, if_true] at h
  split at h <;> cases h

end Connection

end Hypertext
