/-
What happens to a single connection when a step is made in a pool: it is checked out when a checkout is given it, it is
no longer when its holder is done with it, and it becomes idle in no other way.
-/
import Hypertext.Proofs.Client.PoolHistory

namespace Hypertext

namespace Pool

variable {p q : Pool} {t : Target} {l : Lane} {n : Nat} {s x : PooledStream} {f : Lane → Lane} {shown : List PoolEvent}

/-! ## Where a connection is -/

theorem mem_idleStreams : s ∈ p.idleStreams ↔ ∃ l ∈ p.lanes, s ∈ l.idle := List.mem_flatMap

theorem mem_heldStreams : s ∈ p.heldStreams ↔ ∃ l ∈ p.lanes, s ∈ l.held := List.mem_flatMap

theorem Sound.number_lt (hp : p.Sound) (h : s ∈ p.idleStreams ++ p.heldStreams ++ p.closed) : s.number < p.opened :=
  List.mem_range.1 (hp.partition.mem_iff.1 (List.mem_map_of_mem h))

/-- A connection that is idle is neither checked out nor closed. -/
theorem Sound.apart (hp : p.Sound) (h : s ∈ p.idleStreams) : s ∉ p.heldStreams ∧ s ∉ p.closed := by
  have hall : (p.idleStreams ++ p.heldStreams ++ p.closed).Nodup :=
    (hp.partition.nodup_iff.2 List.nodup_range).of_map
  obtain ⟨hopen, -, hclosed⟩ := List.nodup_append.1 hall
  constructor
  · intro hheld
    exact (List.nodup_append.1 hopen).2.2 s h s hheld rfl
  · intro hshut
    exact hclosed s (List.mem_append_left _ h) s hshut rfl

/-- A connection that is checked out is in the lane of its target. -/
theorem Sound.lane?_of_held (hp : p.Sound) (h : s ∈ p.heldStreams) : ∃ l, p.lane? s.target = some l ∧ s ∈ l.held := by
  obtain ⟨m, hm, hs⟩ := mem_heldStreams.1 h
  have hown : s.target = m.target := (hp.lanes m hm).own s (List.mem_append_right _ hs)
  have hsome : (p.lane? s.target).isSome = true :=
    List.find?_isSome.2 ⟨m, hm, by rw [hown]; exact beq_self_eq_true _⟩
  obtain ⟨l, hl⟩ := Option.isSome_iff_exists.1 hsome
  obtain ⟨hmem, htarget⟩ := mem_of_lane? hl
  refine ⟨l, hl, ?_⟩
  -- there is one lane for each target
  rw [List.inj_on_of_nodup_map hp.targets hmem hm (htarget.trans hown)]
  exact hs

theorem Sound.target_of_candidate (hp : p.Sound) (hl : p.lane? t = some l) (hs : p.candidate? t = some s) :
    s.target = t ∧ s ∈ p.idleStreams := by
  have hidle := mem_idle_of_candidate hl hs
  obtain ⟨hmem, htarget⟩ := mem_of_lane? hl
  exact ⟨((hp.lanes l hmem).own s (List.mem_append_left _ hidle)).trans htarget, mem_idleStreams.2 ⟨l, hmem, hidle⟩⟩

/-! ## Idle connections -/

theorem idle_vacate (l : Lane) : l.vacate.idle = l.idle := by
  unfold Lane.vacate
  split <;> rfl

theorem idle_enter (n : Nat) (l : Lane) : (l.enter n).idle = l.idle := by
  unfold Lane.enter
  split <;> rfl

/-- What becomes idle when one lane changes. -/
theorem idle_of_update {fresh : List PooledStream} (hq : q.lanes = (p.update t f).lanes)
    (hf : ∀ l, ∀ x ∈ (f l).idle, x ∈ fresh ∨ x ∈ l.idle) (h : x ∈ q.idleStreams) : x ∈ fresh ∨ x ∈ p.idleStreams := by
  obtain ⟨m, hm, hx⟩ := mem_idleStreams.1 h
  rw [hq] at hm
  obtain ⟨l, hl, rfl⟩ := List.mem_map.1 hm
  split at hx
  · exact (hf l x hx).imp_right fun hx => mem_idleStreams.2 ⟨l, hl, hx⟩
  · exact .inr (mem_idleStreams.2 ⟨l, hl, hx⟩)

/-- A change after which no other connections of the lane are idle. -/
theorem idle_of_shrinking (hq : q.lanes = (p.update t f).lanes) (hf : ∀ l, ∀ x ∈ (f l).idle, x ∈ l.idle)
    (h : x ∈ q.idleStreams) : x ∈ p.idleStreams := by
  have hfresh : x ∈ ([] : List PooledStream) ∨ x ∈ p.idleStreams := idle_of_update hq (fun l y hy => .inr (hf l y hy)) h
  exact hfresh.resolve_left List.not_mem_nil

theorem idle_of_track (h : x ∈ (p.track t).idleStreams) : x ∈ p.idleStreams := by
  obtain ⟨m, hm, hx⟩ := mem_idleStreams.1 h
  rcases mem_of_track hm with hm | rfl
  · exact mem_idleStreams.2 ⟨m, hm, hx⟩
  · cases hx

/-- A connection only becomes idle when its holder is done with it. -/
theorem Step.idle (h : Step p shown q) (hx : x ∈ q.idleStreams) : .returned x ∈ shown ∨ x ∈ p.idleStreams := by
  cases h with
  | prune t => exact .inr (idle_of_track hx)
  | enter t =>
    refine .inr (idle_of_track (idle_of_shrinking rfl (fun l y hy => ?_) hx))
    rwa [idle_enter] at hy
  | giveUp | beginConnect | connected =>
    refine .inr (idle_of_shrinking rfl (fun l y hy => ?_) hx)
    exact hy
  | reuse | discard =>
    refine .inr (idle_of_shrinking rfl (fun l y hy => ?_) hx)
    exact List.mem_of_mem_erase hy
  | connectFailed | leave | drop =>
    refine .inr (idle_of_shrinking rfl (fun l y hy => ?_) hx)
    rwa [idle_vacate] at hy
  | @putBack l s =>
    have hfresh : x ∈ [s] ∨ x ∈ p.idleStreams := by
      refine idle_of_update rfl (fun l y hy => ?_) hx
      exact (List.mem_cons.1 hy).imp_left List.mem_singleton.2
    refine hfresh.imp_left fun hs => ?_
    rw [List.mem_singleton.1 hs]
    exact List.mem_singleton_self _

/-! ## Connections that are checked out -/

/-- How often a connection is checked out changes with what shows of a step. -/
theorem Step.count_held (h : Step p shown q) (hp : p.Sound) (x : PooledStream) :
    shown.countP (PoolEvent.yields x) + p.heldStreams.count x =
      shown.countP (PoolEvent.returns x) + q.heldStreams.count x := by
  have htrack : ∀ t, (p.track t).heldStreams = p.heldStreams := fun t =>
    flatMap_track (fun l hl => (List.append_eq_nil_iff.1 (Lane.streams_of_isUnused hl)).2) rfl
  rcases h.change hp with ⟨t, rfl, rfl⟩ | ⟨t, rfl, rfl⟩ | ⟨l, f, hl, hc⟩
  · rw [htrack]
    rfl
  · obtain ⟨l, hl, hlanes⟩ := enter_eq t p
    have hcount := (hp.track t).count_held hl hlanes x
    rw [held_enter, htrack] at hcount
    rw [Nat.add_right_cancel hcount]
    rfl
  · have hcount := hp.count_held hl hc.lanes x
    have hheld := hc.held x
    omega

/-- A step that gives no connection and takes none leaves those that are checked out. -/
theorem Step.held_of_quiet (h : Step p shown q) (hp : p.Sound) (hy : ∀ x, shown.countP (PoolEvent.yields x) = 0)
    (hr : ∀ x, shown.countP (PoolEvent.returns x) = 0) : x ∈ q.heldStreams ↔ x ∈ p.heldStreams := by
  have hcount := h.count_held hp x
  rw [hy, hr, Nat.zero_add, Nat.zero_add] at hcount
  rw [← List.count_pos_iff, ← List.count_pos_iff, hcount]

theorem Step.held_of_yielded (h : Step p [.yielded n s] q) (hp : p.Sound) :
    x ∈ q.heldStreams ↔ x = s ∨ x ∈ p.heldStreams := by
  have hcount := h.count_held hp x
  simp only [List.countP_singleton, PoolEvent.yields, PoolEvent.returns, beq_iff_eq, Bool.false_eq_true, if_false] at hcount
  rw [← List.count_pos_iff, ← List.count_pos_iff]
  by_cases hx : s = x
  · rw [if_pos hx] at hcount
    exact iff_of_true (by omega) (.inl hx.symm)
  · rw [if_neg hx] at hcount
    rw [or_iff_right (Ne.symm hx)]
    omega

theorem Step.held_of_returned (h : Step p [.returned s] q) (hp : p.Sound) :
    x ∈ q.heldStreams ↔ x ≠ s ∧ x ∈ p.heldStreams := by
  have hcount := h.count_held hp x
  have honce := hp.count_held_le x
  simp only [List.countP_singleton, PoolEvent.yields, PoolEvent.returns, beq_iff_eq, Bool.false_eq_true, if_false] at hcount
  rw [← List.count_pos_iff]
  by_cases hx : s = x
  · rw [if_pos hx] at hcount
    refine iff_of_false ?_ fun hne => hne.1 hx.symm
    split at honce <;> omega
  · rw [if_neg hx] at hcount
    rw [and_iff_right (Ne.symm hx), ← List.count_pos_iff]
    omega

/-- Numbers of connections are not given twice. -/
theorem Step.opened_le (h : Step p shown q) (hp : p.Sound) : p.opened ≤ q.opened := by
  rcases h.change hp with ⟨t, -, rfl⟩ | ⟨t, -, rfl⟩ | ⟨l, f, -, hc⟩
  · exact Nat.le_refl _
  · exact Nat.le_refl _
  · obtain ⟨fresh, hopened, -⟩ := hc.streams
    have hlength := congrArg List.length hopened
    rw [List.length_append, List.length_range, List.length_range] at hlength
    omega

/-- The number of the next checkout changes only when a checkout begins. -/
theorem Step.nextCheckout_eq (h : Step p shown q) (hp : p.Sound) (hnone : ∀ n t, .entered n t ∉ shown) :
    q.nextCheckout = p.nextCheckout := by
  rcases h.change hp with ⟨t, -, rfl⟩ | ⟨t, rfl, rfl⟩ | ⟨l, f, -, hc⟩
  · rfl
  · exact absurd (List.mem_singleton_self _) (hnone _ _)
  · exact hc.nextCheckout

end Pool

end Hypertext
