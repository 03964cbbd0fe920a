/-
How a stream is cut does not matter: whatever reads a connection takes the stream of its peer in, it dispatches the
same requests, writes the same bytes and ends for the same reason as when it takes all of it in one read; and no way
of cutting keeps it from coming to its end.
-/
import Hypertext.Proofs.Server.Transmission

namespace Hypertext

/-- How far a phase is from the next read or the end. -/
def Phase.rank : Phase → Nat
  | .dispatching _ => 5
  | .handling .. => 4
  | .answering .. => 3
  | .examining _ => 2
  | .refusing .. => 1
  | _ => 0

/-- How many bytes a phase has still to write. -/
def Phase.toWrite : Phase → Nat
  | .answering rest _ | .refusing rest _ => rest.length
  | _ => 0

namespace Transmission

variable {rules : ConnectionRules} {capacity : Nat} {stream : Bytes} {t u v : Transmission} {reads reads' : List Bytes}

/-! ## Runs -/

theorem Run.trans (h : Run rules t reads u) (h' : Run rules u reads' v) : Run rules t (reads ++ reads') v := by
  induction h' with
  | refl => rw [List.append_nil]; exact h
  | move _ next ih => rw [← List.append_assoc]; exact ih.move next

theorem Run.silently (h : Run rules t [] u) (next : Move rules u [] v) : Run rules t [] v := h.move next

theorem Move.step_silent {c : Connection} (hr : ∀ deadline, t.connection.phase ≠ .reading deadline)
    (h : t.connection.step rules t.now .running = some c) : Move rules t [] { t with connection := c } := by
  have hreads : t.connection.reads c = [] := by
    unfold Connection.reads
    split
    · next hp _ => exact absurd hp (hr _)
    · rfl
  have hmove := Move.step h
  rwa [hreads] at hmove

/-! ## Between two reads -/

/-- How much there is to do with the bytes that have been read. -/
def effort (t : Transmission) : Nat := 6 * t.connection.buffer.bytes.length + t.connection.phase.rank

/-- Less is left to do, and nothing has been read. -/
structure Advance (rules : ConnectionRules) (capacity : Nat) (stream : Bytes) (t u : Transmission) : Prop where
  run : Run rules t [] u
  faithful : u.Faithful rules capacity stream
  unread : u.connection.isClosed = false → u.connection.inbound = t.connection.inbound ∧ u.unsent = t.unsent
  less : u.effort < t.effort ∨ u.effort = t.effort ∧ u.connection.phase.toWrite < t.connection.phase.toWrite

/-- The peer can always make room for bytes that are to be written. -/
theorem Faithful.make_room (hf : t.Faithful rules capacity stream) (hcap : 0 < capacity)
    (hopen : t.connection.isClosed = false) :
    ∃ outbound received, 0 < outbound.room ∧ outbound.closed = false ∧
      Run rules t [] { t with connection := { t.connection with outbound }, received } ∧
      { t with connection := { t.connection with outbound }, received }.Faithful rules capacity stream := by
  have hlinked := hf.linked hopen
  have hwaiting := hf.outWaiting
  refine ⟨(t.connection.outbound.read t.connection.outbound.bytes.length).2,
    t.received ++ (t.connection.outbound.read t.connection.outbound.bytes.length).1, ?_,
    (Pipe.closed_read _ _).trans hlinked.outOpen, Run.refl.silently (.receive _), receive_faithful hf _⟩
  rw [Pipe.read_of_waiting hwaiting]
  simpa [Pipe.room, hlinked.outCapacity] using hcap

theorem examining_advance (hf : t.Faithful rules capacity stream) {deadline : Nat}
    (hp : t.connection.phase = .examining deadline) : ∃ u, Advance rules capacity stream t u := by
  have hstep : t.connection.step rules t.now .running = some (t.connection.examine rules t.now .running deadline) := by
    rw [Connection.step, hp]
  refine ⟨_, Run.refl.silently (Move.step_silent (by simp [hp]) hstep), examine_faithful hf hp,
    fun _ => ⟨?_, rfl⟩, .inl ?_⟩
  · simp only [Connection.examine, ShutdownState.isRunning, Bool.not_true, Bool.false_eq_true, if_false]
    split
    · rfl
    · exact Connection.inbound_move _ _
    · rfl
  · simp only [effort, hp, Connection.examine, ShutdownState.isRunning, Bool.not_true, Bool.false_eq_true, if_false]
    split
    · simp [Phase.rank]
    · next request rest h =>
      have hlt := Admission.serve_lt h
      simp only [Connection.phase_move, Connection.buffer_move, ReadBuffer.bytes_keep, Phase.rank]
      omega
    · simp [Connection.refuse, Phase.rank]

theorem dispatching_advance (hf : t.Faithful rules capacity stream) {request : Request}
    (hp : t.connection.phase = .dispatching request) : ∃ u, Advance rules capacity stream t u := by
  have hstep : t.connection.step rules t.now .running =
      some (t.connection.dispatch rules t.now .running request) := by
    rw [Connection.step, hp]
  refine ⟨_, Run.refl.silently (Move.step_silent (by simp [hp]) hstep), dispatch_faithful hf hp,
    fun _ => ⟨?_, rfl⟩, .inl ?_⟩
  · simp only [Connection.dispatch, ShutdownState.isTerminated, Bool.false_eq_true, if_false]
    split <;> rfl
  · simp only [effort, hp, Connection.dispatch, ShutdownState.isTerminated, Bool.false_eq_true, if_false]
    split
    · show 6 * t.connection.buffer.bytes.length + 3 < _
      simp [Phase.rank]
    · show 6 * t.connection.buffer.bytes.length + 4 < _
      simp [Phase.rank]

/-- A handler is answered for at the latest when it has ended and its deadline has come. -/
theorem handling_advance (hf : t.Faithful rules capacity stream) {exchange : Exchange} {deadline ends : Nat}
    {completion : Completion} (hp : t.connection.phase = .handling exchange deadline ends completion) :
    ∃ u, Advance rules capacity stream t u := by
  -- so much time passes that the handler has ended and its deadline has come
  have hlate : { t with now := t.now + (deadline + ends) }.Faithful rules capacity stream :=
    hf.keep rfl rfl rfl (fun _ => rfl) rfl hf.outWaiting fun h => ⟨h.1, h.2, h.3, h.4, h.5⟩
  have hanswer : ∃ outcome, t.connection.step rules (t.now + (deadline + ends)) .running =
      some (t.connection.answer .running outcome exchange) := by
    rw [Connection.step, hp]
    simp only [Connection.awaitHandler, ShutdownState.isTerminated, Bool.false_eq_true, if_false]
    split
    · exact ⟨_, rfl⟩
    · rw [if_pos (by omega)]
      exact ⟨_, rfl⟩
  obtain ⟨outcome, hstep⟩ := hanswer
  have hawait := hstep
  rw [Connection.step, hp] at hawait
  refine ⟨_, (Run.refl.silently (.pass (deadline + ends))).silently (Move.step_silent (by simp [hp]) hstep),
    awaitHandler_faithful hlate hp hawait, fun _ => ⟨rfl, rfl⟩, .inl ?_⟩
  show 6 * t.connection.buffer.bytes.length + 3 < _
  simp [effort, hp, Phase.rank]

/-- Bytes are written as soon as there is room for them. -/
theorem writing_advance (hf : t.Faithful rules capacity stream) (hcap : 0 < capacity) {rest : Bytes} (hne : rest ≠ [])
    (phase : Bytes → Phase) (hp : t.connection.phase = phase rest) (hlength : ∀ r, (phase r).toWrite = r.length)
    (hrank : ∀ r, (phase r).rank = (phase rest).rank) (hreading : ∀ r deadline, phase r ≠ .reading deadline)
    (hclosed : ∀ r reason, phase r ≠ .closed reason)
    (hstep : ∀ outbound : Pipe, 0 < outbound.room → outbound.closed = false →
      Connection.step rules t.now .running { t.connection with outbound } =
        some { t.connection with phase := phase (outbound.write rest).1, outbound := (outbound.write rest).2 }) :
    ∃ u, Advance rules capacity stream t u := by
  have hopen : t.connection.isClosed = false := by
    unfold Connection.isClosed
    split
    · next reason h => exact absurd (hp.symm.trans h) (hclosed rest reason)
    · rfl
  -- the peer takes what it was sent, so that the pipe has room again
  obtain ⟨outbound, received, hroom, hout, hrun, hf'⟩ := hf.make_room hcap hopen
  have hstep := hstep outbound hroom hout
  have hsilent : ∀ deadline, t.connection.phase ≠ .reading deadline := by
    intro deadline h
    exact hreading rest deadline (hp.symm.trans h)
  refine ⟨_, hrun.silently (Move.step_silent hsilent hstep), ?_, fun _ => ⟨rfl, rfl⟩, .inr ⟨?_, ?_⟩⟩
  · rcases step_faithful hf' hstep with h | h
    · exact h
    · exact absurd h (hclosed _ _)
  · simp [effort, hp, hrank]
  · have hpos := List.length_pos_iff.2 hne
    simp only [hp, hlength, Pipe.write, List.length_drop]
    omega

theorem answering_advance (hf : t.Faithful rules capacity stream) (hcap : 0 < capacity) {rest : Bytes}
    {sequel : Sequel} (hp : t.connection.phase = .answering rest sequel) : ∃ u, Advance rules capacity stream t u := by
  by_cases hrest : rest = []
  · subst hrest
    have hstep : t.connection.step rules t.now .running =
        some (Connection.follow rules t.now sequel { t.connection with served := t.connection.served + 1 }) := by
      rw [Connection.step, hp]
      rfl
    refine ⟨_, Run.refl.silently (Move.step_silent (by simp [hp]) hstep), follow_faithful hf hp _, ?_, .inl ?_⟩
    · cases sequel with
      | goOn => exact fun _ => ⟨Connection.inbound_move _ _, rfl⟩
      | drain => exact fun _ => ⟨Connection.inbound_move _ _, rfl⟩
      | close reason => rintro ⟨⟩
    · cases sequel with
      | goOn => simp [effort, hp, Connection.follow, Connection.await, Phase.rank]
      | drain => simp [effort, hp, Connection.follow, Connection.drain, Phase.rank]
      | close reason => simp [effort, hp, Connection.follow, Connection.finish, Phase.rank]
  · refine writing_advance hf hcap hrest (.answering · sequel) hp (fun _ => rfl) (fun _ => rfl)
      (by simp) (by simp) fun outbound hroom hout => ?_
    rw [Connection.step, hp]
    simp only [Connection.writeAnswer, ShutdownState.isTerminated, Bool.false_eq_true, if_false, List.isEmpty_iff,
      hrest, hout, if_neg (Nat.ne_of_gt hroom)]

theorem refusing_advance (hf : t.Faithful rules capacity stream) (hcap : 0 < capacity) {rest : Bytes}
    {reason : CloseReason} (hp : t.connection.phase = .refusing rest reason) :
    ∃ u, Advance rules capacity stream t u := by
  by_cases hrest : rest = []
  · have hstep : t.connection.step rules t.now .running = some (t.connection.finish reason) := by
      rw [Connection.step, hp, hrest]
      rfl
    refine ⟨_, Run.refl.silently (Move.step_silent (by simp [hp]) hstep),
      hf.finish (by rw [hp, hrest]; rfl) rfl rfl, by rintro ⟨⟩, .inl ?_⟩
    simp [effort, hp, Connection.finish, Phase.rank]
  · refine writing_advance hf hcap hrest (.refusing · reason) hp (fun _ => rfl) (fun _ => rfl)
      (by simp) (by simp) fun outbound hroom hout => ?_
    rw [Connection.step, hp]
    simp only [Connection.writeRefusal, List.isEmpty_iff, hrest, hout, Bool.or_false, if_false,
      if_neg (Nat.ne_of_gt hroom)]

/-- Every phase but the wait for bytes goes on by itself until the connection has ended. -/
theorem Faithful.advance (hf : t.Faithful rules capacity stream) (hcap : 0 < capacity)
    (hopen : t.connection.isClosed = false) (hreading : ∀ deadline, t.connection.phase ≠ .reading deadline) :
    ∃ u, Advance rules capacity stream t u := by
  cases hp : t.connection.phase with
  | examining deadline => exact examining_advance hf hp
  | reading deadline => exact absurd hp (hreading deadline)
  | dispatching request => exact dispatching_advance hf hp
  | handling exchange deadline ends completion => exact handling_advance hf hp
  | answering rest sequel => exact answering_advance hf hcap hp
  | refusing rest reason => exact refusing_advance hf hcap hp
  | lingering deadline => exact absurd hf.stays (by rw [hp]; simp [Phase.drains])
  | closed reason => simp [Connection.isClosed, hp] at hopen

/-- Without any read the connection comes to its end or to a wait for bytes. -/
theorem Faithful.settles (t : Transmission) (hf : t.Faithful rules capacity stream) (hcap : 0 < capacity) :
    ∃ u, Run rules t [] u ∧ u.Faithful rules capacity stream ∧
      (u.connection.isClosed = true ∨
        (∃ deadline, u.connection.phase = .reading deadline) ∧
          u.connection.inbound = t.connection.inbound ∧ u.unsent = t.unsent) := by
  by_cases hreading : ∃ deadline, t.connection.phase = .reading deadline
  · exact ⟨t, .refl, hf, .inr ⟨hreading, rfl, rfl⟩⟩
  cases hopen : t.connection.isClosed with
  | true => exact ⟨t, .refl, hf, .inl hopen⟩
  | false =>
    obtain ⟨v, hrun, hv, hunread, hless⟩ := hf.advance hcap hopen fun d h => hreading ⟨d, h⟩
    cases hvo : v.connection.isClosed with
    | true => exact ⟨v, hrun, hv, .inl hvo⟩
    | false =>
      obtain ⟨u, hrun', hu, h⟩ := Faithful.settles v hv hcap
      obtain ⟨hin, hunsent⟩ := hunread hvo
      rw [hin, hunsent] at h
      exact ⟨u, hrun.trans hrun', hu, h⟩
termination_by (t.effort, t.connection.phase.toWrite)
decreasing_by
  -- a write of a part of an answer leaves the effort as it is and lowers what is still to be written
  rcases hless with h | ⟨h, h'⟩
  · exact Prod.Lex.left _ _ h
  · rw [h]; exact Prod.Lex.right _ h'

/-! ## Reads -/

/-- What is there is read. -/
theorem Faithful.reads_available (hf : t.Faithful rules capacity stream) {deadline : Nat}
    (hp : t.connection.phase = .reading deadline) (hbytes : t.connection.inbound.bytes ≠ []) :
    Run rules t [(t.connection.inbound.read t.connection.buffer.room).1]
        { t with connection := t.connection.read.await rules t.now } ∧
      { t with connection := t.connection.read.await rules t.now }.Faithful rules capacity stream := by
  have hstep : t.connection.step rules t.now .running = some (t.connection.read.await rules t.now) := by
    rw [Connection.step, hp]
    simp [Connection.awaitBytes, ShutdownState.isRunning, hbytes]
  have hreads : t.connection.reads (t.connection.read.await rules t.now) =
      [(t.connection.inbound.read t.connection.buffer.room).1] := by
    simp only [Connection.reads, hp, Connection.await, Connection.read, ReadBuffer.bytes_append, List.drop_left]
  have hmove := Move.step hstep
  rw [hreads] at hmove
  exact ⟨Run.refl.move hmove, read_faithful hf hp⟩

/-- A read of what is there leaves less to be read. -/
theorem unread_read_lt (rules : ConnectionRules) (hbytes : t.connection.inbound.bytes ≠ []) :
    { t with connection := t.connection.read.await rules t.now }.unread.length < t.unread.length := by
  have hread := congrArg List.length (t.connection.inbound.read_contents t.connection.buffer.room)
  have hroom := t.connection.buffer.room_pos
  have hpos := List.length_pos_iff.2 hbytes
  show (Pipe.contents (Pipe.read _ _).2 ++ t.unsent).length < (t.connection.inbound.contents ++ t.unsent).length
  have htaken : 0 < (t.connection.inbound.read t.connection.buffer.room).1.length := by
    simp only [Pipe.read, List.length_take]
    omega
  simp only [List.length_append] at hread ⊢
  omega

/-- When nothing comes any more the connection ends. -/
theorem Faithful.ends (hf : t.Faithful rules capacity stream) {deadline : Nat}
    (hp : t.connection.phase = .reading deadline) (hunread : t.unread = []) :
    ∃ u, Run rules t [] u ∧ u.Faithful rules capacity stream ∧ u.connection.isClosed = true := by
  obtain ⟨hcontents, hunsent⟩ := List.append_eq_nil_iff.1 hunread
  obtain ⟨hbytes, hwaiting⟩ := List.append_eq_nil_iff.1 hcontents
  have hstep : Connection.step rules t.now .running
      { t.connection with inbound := t.connection.inbound.close } =
        some (Connection.finish .peerClosed { t.connection with inbound := t.connection.inbound.close }) := by
    rw [Connection.step, hp]
    simp [Connection.awaitBytes, ShutdownState.isRunning, Pipe.close, hbytes]
  have hmove := Move.step (t := { t with connection := { t.connection with inbound := t.connection.inbound.close } })
    hstep
  rw [Connection.reads_finish] at hmove
  refine ⟨_, (Run.refl.silently (.close hunsent hwaiting)).silently hmove, ?_, rfl⟩
  rcases step_faithful (close_faithful hf hunsent hwaiting) hstep with h | h
  · exact h
  · cases h

/-- While there are bytes to read some can be read. -/
theorem Faithful.reads_some (hf : t.Faithful rules capacity stream) (hcap : 0 < capacity) {deadline : Nat}
    (hp : t.connection.phase = .reading deadline) (hunread : t.unread ≠ []) :
    ∃ reads u, Run rules t reads u ∧ u.Faithful rules capacity stream ∧ u.unread.length < t.unread.length := by
  have hlinked : ∀ {v : Transmission}, v.Faithful rules capacity stream → v.connection.phase = .reading deadline →
      v.Linked capacity := fun hv h => hv.linked (by simp [Connection.isClosed, h])
  by_cases hbytes : t.connection.inbound.bytes = []
  · -- nothing has come yet, so the peer sends what is left
    have hwaiting := (hlinked hf hp).inSettled.waiting_eq_nil ((hlinked hf hp).inCapacity ▸ hcap) hbytes
    have hcontents : t.connection.inbound.contents = [] := by rw [Pipe.contents, hbytes, hwaiting]; rfl
    have hne : t.unsent ≠ [] := by
      intro h
      exact hunread (by rw [unread, hcontents, h]; rfl)
    have hrest : t.unsent = t.unsent ++ [] := (List.append_nil _).symm
    have hv := send_faithful hf hne hrest
    have hopen : t.connection.inbound.closed = false := by
      cases hc : t.connection.inbound.closed with
      | false => rfl
      | true => exact absurd ((hlinked hf hp).sent hc).1 hne
    have hsent : (t.connection.inbound.send t.unsent).contents = t.unsent := by
      rw [Pipe.contents_send hopen, hcontents]
      rfl
    have hsome : (t.connection.inbound.send t.unsent).bytes ≠ [] := by
      intro h
      have hw := (hlinked hv hp).inSettled.waiting_eq_nil ((hlinked hv hp).inCapacity ▸ hcap) h
      rw [Pipe.contents, h, hw] at hsent
      exact hne hsent.symm
    obtain ⟨hrun, hu⟩ := hv.reads_available hp hsome
    refine ⟨_, _, (Run.refl.silently (.send hne hrest)).trans hrun, hu, ?_⟩
    refine Nat.lt_of_lt_of_eq (unread_read_lt rules hsome) ?_
    show ((t.connection.inbound.send t.unsent).contents ++ []).length = (t.connection.inbound.contents ++ _).length
    rw [hsent, hcontents, List.append_nil]
    rfl
  · obtain ⟨hrun, hu⟩ := hf.reads_available hp hbytes
    exact ⟨_, _, hrun, hu, unread_read_lt rules hbytes⟩

/-- A piece that the pipe can hold is read at once if the buffer has room for it. -/
theorem Faithful.reads_piece (hf : t.Faithful rules capacity stream) {deadline : Nat}
    (hp : t.connection.phase = .reading deadline) (hcontents : t.connection.inbound.contents = [])
    {piece rest : Bytes} (hne : piece ≠ []) (hle : piece.length ≤ capacity) (hunsent : t.unsent = piece ++ rest) :
    ∃ u, Run rules t [piece] u ∧ u.Faithful rules capacity stream ∧ u.connection.inbound.contents = [] ∧
      u.unsent = rest := by
  have hlinked := hf.linked (by simp [Connection.isClosed, hp])
  have hopen : t.connection.inbound.closed = false := by
    cases hc : t.connection.inbound.closed with
    | false => rfl
    | true => exact absurd (hlinked.sent hc).1 (by simp [hunsent, hne])
  have hpos := List.length_pos_iff.2 hne
  have hsend := Pipe.send_of_empty hopen hcontents (hlinked.inCapacity ▸ hle)
  have hsent : Move rules t [] _ := .send hne hunsent
  have hmoves := (Run.refl.silently hsent).silently
    (.reserve (t.connection.buffer.bytes.length + piece.length) 0)
  rw [hsend] at hmoves
  have hv := (hmoves.faithful hf).resolve_right (by simp [hp])
  obtain ⟨hrun, hu⟩ := hv.reads_available hp hne
  have hread : (Pipe.read (ReadBuffer.room ⟨t.connection.buffer.bytes.length + piece.length, 0,
      t.connection.buffer.bytes⟩) { t.connection.inbound with bytes := piece, waiting := [] }) =
      (piece, { t.connection.inbound with bytes := [], waiting := [] }) := by
    rw [Pipe.read_of_waiting rfl, ReadBuffer.room_of_front _ hpos, List.take_length, List.drop_length]
  refine ⟨_, hmoves.trans ?_, hu, ?_, rfl⟩
  · rw [hread] at hrun
    exact hrun
  · show (Pipe.read _ _).2.contents = []
    rw [hread]
    rfl

/-! ## Whole runs -/

/-- A connection comes to its end, whatever has happened before. -/
theorem Faithful.completes (t : Transmission) (hf : t.Faithful rules capacity stream) (hcap : 0 < capacity) :
    ∃ reads u, Run rules t reads u ∧ u.Faithful rules capacity stream ∧ u.connection.isClosed = true := by
  obtain ⟨v, hrun, hv, hclosed | ⟨⟨deadline, hp⟩, hin, hunsent⟩⟩ := hf.settles t hcap
  · exact ⟨[], v, hrun, hv, hclosed⟩
  · have hsame : v.unread = t.unread := by rw [unread, unread, hin, hunsent]
    by_cases hunread : v.unread = []
    · obtain ⟨u, hrun', hu, hclosed⟩ := hv.ends hp hunread
      exact ⟨_, u, hrun.trans hrun', hu, hclosed⟩
    · obtain ⟨reads, w, hrun', hw, hlt⟩ := hv.reads_some hcap hp hunread
      obtain ⟨reads', u, hrun'', hu, hclosed⟩ := Faithful.completes w hw hcap
      exact ⟨_, u, (hrun.trans hrun').trans hrun'', hu, hclosed⟩
termination_by t.unread.length
decreasing_by rw [← hsame]; exact hlt

/-- A connection comes to its end over any cut of what its peer has still to send. -/
theorem Faithful.completes_over (hcap : 0 < capacity) :
    ∀ (pieces : List Bytes) (t : Transmission), t.Faithful rules capacity stream →
      t.connection.inbound.contents = [] → t.unsent = pieces.flatten →
      (∀ piece ∈ pieces, piece ≠ [] ∧ piece.length ≤ capacity) →
      ∃ reads u, reads <+: pieces ∧ Run rules t reads u ∧ u.Faithful rules capacity stream ∧
        u.connection.isClosed = true
  | pieces, t, hf, hcontents, hunsent, hpieces => by
    obtain ⟨v, hrun, hv, hclosed | ⟨⟨deadline, hp⟩, hin, hunsent'⟩⟩ := hf.settles t hcap
    · exact ⟨[], v, List.nil_prefix, hrun, hv, hclosed⟩
    · rw [hunsent] at hunsent'
      rw [← hin] at hcontents
      cases pieces with
      | nil =>
        have hunread : v.unread = [] := by rw [unread, hcontents, hunsent']; rfl
        obtain ⟨u, hrun', hu, hclosed⟩ := hv.ends hp hunread
        exact ⟨[], u, List.nil_prefix, hrun.trans hrun', hu, hclosed⟩
      | cons piece pieces =>
        obtain ⟨hne, hle⟩ := hpieces piece List.mem_cons_self
        obtain ⟨w, hrun', hw, hcontents', hrest⟩ := hv.reads_piece hp hcontents hne hle hunsent'
        obtain ⟨reads, u, hprefix, hrun'', hu, hclosed⟩ := Faithful.completes_over hcap pieces w hw hcontents' hrest
          fun p hmem => hpieces p (List.mem_cons_of_mem _ hmem)
        refine ⟨piece :: reads, u, (List.prefix_cons_inj piece).2 hprefix, ?_, hu, hclosed⟩
        exact (hrun.trans hrun').trans hrun''

theorem Faithful.conversation_of_closed (hf : t.Faithful rules capacity stream) (h : t.connection.isClosed = true) :
    t.conversation? = some (.ofBytes rules stream) := by
  cases hp : t.connection.phase with
  | closed reason => exact hf.conversation hp
  | _ => simp [Connection.isClosed, hp] at h

/-- The requests that are dispatched, the bytes that are written and the reason for the end depend on the stream
alone. Let each request of the stream and what remains after the last one fit into the limit, let no shutdown begin,
and let the peer never be given up. Then, in whatever reads the connection takes the stream, it has the conversation
of the stream; so it does when it takes all of it in one read, and the requests are the first ones of the stream, each
of them once. No run keeps the connection from its end, and there is a run for each cut into pieces that the pipe can
hold. -/
theorem conversation_of_cut {rules : ConnectionRules} {stream : Bytes}
    (hfits : Request.Fits rules.maxRequestBytes stream) (id : ConnectionId) (capacity now : Nat) :
    (∀ reads t c, Run rules (start rules id capacity now stream) reads t → t.conversation? = some c →
      c.reason ≠ .idleTimeout →
        c = .ofBytes rules stream ∧ c.requests <+: Request.sequence stream ∧
        ∀ id' capacity' now' t' c', Run rules (start rules id' capacity' now' stream) [stream] t' →
          t'.conversation? = some c' → c'.reason ≠ .idleTimeout → c = c') ∧
    (0 < capacity → ∀ reads t, Run rules (start rules id capacity now stream) reads t →
      t.connection.phase ≠ .closed .idleTimeout →
        ∃ reads' u, Run rules t reads' u ∧ u.conversation? = some (.ofBytes rules stream)) ∧
    (0 < capacity → ∀ pieces : List Bytes, pieces.flatten = stream →
      (∀ piece ∈ pieces, piece ≠ [] ∧ piece.length ≤ capacity) →
        ∃ reads u, reads <+: pieces ∧ Run rules (start rules id capacity now stream) reads u ∧
          u.conversation? = some (.ofBytes rules stream)) ∧
    (Conversation.ofBytes rules stream).reason ≠ .idleTimeout := by
  have hends : ∀ {id capacity now reads t c}, Run rules (start rules id capacity now stream) reads t →
      t.conversation? = some c → c.reason ≠ .idleTimeout → c = .ofBytes rules stream := by
    intro id capacity now reads t c hrun hc hidle
    rcases hrun.faithful (faithful_start hfits id now) with hf | hp
    · cases hp : t.connection.phase with
      | closed reason =>
        rw [hf.conversation hp] at hc
        exact (Option.some.inj hc).symm
      | _ => simp [conversation?, hp] at hc
    · rw [conversation?, hp] at hc
      cases hc
      exact absurd rfl hidle
  refine ⟨fun reads t c hrun hc hidle => ?_, fun hcap reads t hrun hidle => ?_, fun hcap pieces hflat hpieces => ?_,
    Conversation.reason_ne_idleTimeout rules stream⟩
  · have heq := hends hrun hc hidle
    refine ⟨heq, heq ▸ Conversation.requests_prefix rules stream, ?_⟩
    intro id' capacity' now' t' c' hrun' hc' hidle'
    rw [heq, hends hrun' hc' hidle']
  · have hf := (hrun.faithful (faithful_start hfits id now)).resolve_right hidle
    obtain ⟨reads', u, hrun', hu, hclosed⟩ := hf.completes t hcap
    exact ⟨reads', u, hrun', hu.conversation_of_closed hclosed⟩
  · have hf : (start rules id capacity now stream).Faithful rules capacity stream := faithful_start hfits id now
    obtain ⟨reads, u, hprefix, hrun, hu, hclosed⟩ := Faithful.completes_over hcap pieces _ hf rfl hflat.symm hpieces
    exact ⟨reads, u, hprefix, hrun, hu.conversation_of_closed hclosed⟩

/-- A server without routes answers two requests, and then there is only the beginning of a third. -/
theorem conversation_of_two_requests :
    Conversation.ofBytes ⟨⟨.empty, ⟨0⟩⟩, 0, 20, false, Gzip.gzip⟩
        (Bytes.ofText "GET /a HTTP/1.1\r\n\r\nGET /b HTTP/1.1\r\n\r\nPOST") =
      ⟨[.new .get "/a", .new .get "/b"], (Answer.noRoute true).bytes ++ (Answer.noRoute true).bytes, .peerClosed⟩ := by
  let rules : ConnectionRules := ⟨⟨.empty, ⟨0⟩⟩, 0, 20, false, Gzip.gzip⟩
  have htake : ∀ {bytes rest path}, Admission.ofBuffer 20 bytes = .serve (.new .get path) rest →
      Conversation.ofBytes rules bytes =
        (Conversation.ofBytes rules rest).after [.new .get path] (Answer.noRoute true).bytes := by
    intro bytes rest path h
    have hmethod : (Request.new .get path).method ≠ .head := nofun
    rw [Conversation.ofBytes_of_serve h, ConnectionRules.answer_of_empty _ _ _ _ hmethod, Conversation.ofAnswer,
      Conversation.after_after, List.nil_append, List.append_nil]
    rfl
  have hfirst : Admission.ofBuffer 20 (Bytes.ofText "GET /a HTTP/1.1\r\n\r\nGET /b HTTP/1.1\r\n\r\nPOST") =
      .serve (.new .get "/a") (Bytes.ofText "GET /b HTTP/1.1\r\n\r\nPOST") := by rfl
  have hsecond : Admission.ofBuffer 20 (Bytes.ofText "GET /b HTTP/1.1\r\n\r\nPOST") =
      .serve (.new .get "/b") (Bytes.ofText "POST") := by rfl
  have hlast : Conversation.ofBytes rules (Bytes.ofText "POST") = .ended .peerClosed :=
    Conversation.ofBytes_of_wait rfl
  rw [htake hfirst, htake hsecond, hlast]
  simp only [Conversation.after, Conversation.ended, List.append_nil, List.singleton_append]

/-- Two requests and the beginning of a third, cut inside the first line, inside the second request and inside the
third. Both requests are dispatched and answered, one answer after the other. -/
theorem conversation_of_three_pieces :
    Request.Fits 20 (Bytes.ofText "GET /a HTTP/1.1\r\n\r\nGET /b HTTP/1.1\r\n\r\nPOST") ∧
    ∃ reads u,
      reads <+: [Bytes.ofText "GET /a HTT", Bytes.ofText "P/1.1\r\n\r\nGET /b HTTP/1.1\r\n\r\nPO", Bytes.ofText "ST"] ∧
      Run ⟨⟨.empty, ⟨0⟩⟩, 0, 20, false, Gzip.gzip⟩
        (start ⟨⟨.empty, ⟨0⟩⟩, 0, 20, false, Gzip.gzip⟩ ⟨1⟩ 64 0
          (Bytes.ofText "GET /a HTTP/1.1\r\n\r\nGET /b HTTP/1.1\r\n\r\nPOST")) reads u ∧
      u.conversation? = some
        ⟨[.new .get "/a", .new .get "/b"], (Answer.noRoute true).bytes ++ (Answer.noRoute true).bytes,
          .peerClosed⟩ := by
  have hfits : Request.Fits 20 (Bytes.ofText "GET /a HTTP/1.1\r\n\r\nGET /b HTTP/1.1\r\n\r\nPOST") := by
    have hlast : Request.Fits 20 (Bytes.ofText "POST") := .remainder (by decide) (by decide)
    have hsecond : Request.Fits 20 (Bytes.ofText "GET /b HTTP/1.1\r\n\r\nPOST") :=
      .request (r := Request.new .get "/b") (by decide) (by decide) hlast
    exact .request (r := Request.new .get "/a") (by decide) (by decide) hsecond
  let rules : ConnectionRules := ⟨⟨.empty, ⟨0⟩⟩, 0, 20, false, Gzip.gzip⟩
  have hfits' : Request.Fits rules.maxRequestBytes _ := hfits
  obtain ⟨reads, u, hprefix, hrun, hconversation⟩ :=
    (conversation_of_cut hfits' ⟨1⟩ 64 0).2.2.1 (by decide)
      [Bytes.ofText "GET /a HTT", Bytes.ofText "P/1.1\r\n\r\nGET /b HTTP/1.1\r\n\r\nPO", Bytes.ofText "ST"]
      (by decide) (by decide)
  exact ⟨hfits, reads, u, hprefix, hrun, hconversation.trans (congrArg some conversation_of_two_requests)⟩

end Transmission

end Hypertext
