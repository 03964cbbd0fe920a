/-
The account of a pool. In whatever order checkouts, returns and prunings happen, a target never has more connections
than places, each connection that was opened is idle, checked out by one holder, or closed, and a checkout gets a
connection of its own target.

The invariant is kept lane by lane: every place is free or taken by somebody, and no connection is idle for which
there is not a place that is free, or whose taker is still looking for a connection or about to leave.
-/
import Hypertext.Client.Pool
import Mathlib.Data.List.Perm.Basic
import Mathlib.Data.List.Nodup

namespace Hypertext

/-! ## One lane -/

namespace Lane

/-- The connections of a lane that are not closed. -/
def streams (l : Lane) : List PooledStream := l.idle ++ l.held

/-- The checkouts that are under way. -/
def checkouts (l : Lane) : List Nat := l.waiting ++ (l.choosing ++ l.connecting)

/-- The account of a lane with so many places. -/
structure Sound (places : Nat) (l : Lane) : Prop where
  taken : l.free + l.choosing.length + l.connecting.length + l.held.length + l.leaving = places
  idle_le : l.idle.length ≤ l.free + l.choosing.length + l.leaving
  own : ∀ s ∈ l.streams, s.target = l.target

variable {places n : Nat} {l : Lane} {s : PooledStream}

theorem sound_new (target : Target) (places : Nat) : (new target places).Sound places := by
  constructor
  · rfl
  · exact Nat.zero_le _
  · intro s hs
    cases hs

/-- No more connections are idle, checked out or being opened than there are places. -/
theorem Sound.busy_le (h : l.Sound places) : l.idle.length + l.held.length + l.connecting.length ≤ places := by
  have h1 := h.taken
  have h2 := h.idle_le
  omega

@[simp]
theorem target_vacate : l.vacate.target = l.target := by
  unfold vacate
  split <;> rfl

@[simp]
theorem streams_vacate : l.vacate.streams = l.streams := by
  unfold vacate
  split <;> rfl

@[simp]
theorem held_vacate : l.vacate.held = l.held := by
  unfold vacate
  split <;> rfl

/-- A place that becomes free changes hands, and the checkouts stay the same. -/
theorem mem_checkouts_vacate : n ∈ l.vacate.checkouts ↔ n ∈ l.checkouts := by
  unfold vacate
  split
  · rfl
  · next next others h =>
    simp only [checkouts, h, List.mem_append, List.mem_cons, List.not_mem_nil, or_false]
    constructor
    · rintro (h | (h | h) | h)
      · exact .inl (.inr h)
      · exact .inr (.inl h)
      · exact .inl (.inl h)
      · exact .inr (.inr h)
    · rintro ((h | h) | h | h)
      · exact .inr (.inl (.inr h))
      · exact .inl h
      · exact .inr (.inl (.inl h))
      · exact .inr (.inr h)

/-- The account of a lane that is one place short is in order again once that place is given up. -/
theorem sound_vacate
    (taken : l.free + l.choosing.length + l.connecting.length + l.held.length + l.leaving + 1 = places)
    (idle_le : l.idle.length ≤ l.free + l.choosing.length + l.leaving + 1)
    (own : ∀ s ∈ l.streams, s.target = l.target) : l.vacate.Sound places := by
  unfold vacate
  split
  · refine ⟨?_, ?_, own⟩
    · simp only; omega
    · simp only; omega
  · refine ⟨?_, ?_, own⟩
    · simp only [List.length_append, List.length_singleton]; omega
    · simp only [List.length_append, List.length_singleton]; omega

theorem Sound.enter (h : l.Sound places) (n : Nat) : (l.enter n).Sound places := by
  have h1 := h.taken
  have h2 := h.idle_le
  unfold Lane.enter
  split
  · refine ⟨?_, ?_, h.own⟩
    · simp only [List.length_append, List.length_singleton]; omega
    · simp only [List.length_append, List.length_singleton]; omega
  · exact ⟨h1, h2, h.own⟩

theorem Sound.reuse (h : l.Sound places) (hn : n ∈ l.choosing) (hs : s ∈ l.idle) :
    { l with choosing := l.choosing.erase n, idle := l.idle.erase s, held := s :: l.held }.Sound places := by
  have h1 := h.taken
  have h2 := h.idle_le
  have hchoosing := List.length_erase_of_mem hn
  have hidle := List.length_erase_of_mem hs
  have hpos := List.length_pos_of_mem hn
  have hpos' := List.length_pos_of_mem hs
  refine ⟨?_, ?_, ?_⟩
  · simp only [List.length_cons]; omega
  · simp only; omega
  · intro x hx
    refine h.own x ?_
    simp only [streams, List.mem_append, List.mem_cons] at hx ⊢
    rcases hx with hx | rfl | hx
    · exact .inl (List.mem_of_mem_erase hx)
    · exact .inl hs
    · exact .inr hx

theorem Sound.discard (h : l.Sound places) (s : PooledStream) : { l with idle := l.idle.erase s }.Sound places := by
  refine ⟨h.taken, Nat.le_trans List.length_erase_le h.idle_le, ?_⟩
  intro x hx
  refine h.own x ?_
  simp only [streams, List.mem_append] at hx ⊢
  exact hx.imp_left List.mem_of_mem_erase

/-- A checkout only begins to open a connection when none is idle. -/
theorem Sound.beginConnect (h : l.Sound places) (hn : n ∈ l.choosing) (hidle : l.idle = []) :
    { l with choosing := l.choosing.erase n, connecting := l.connecting ++ [n] }.Sound places := by
  have h1 := h.taken
  have hchoosing := List.length_erase_of_mem hn
  have hpos := List.length_pos_of_mem hn
  refine ⟨?_, ?_, h.own⟩
  · simp only [List.length_append, List.length_singleton]; omega
  · simp only [hidle, List.length_nil]; omega

theorem Sound.connected (h : l.Sound places) (hn : n ∈ l.connecting) (hs : s.target = l.target) :
    { l with connecting := l.connecting.erase n, held := s :: l.held }.Sound places := by
  have h1 := h.taken
  have hconnecting := List.length_erase_of_mem hn
  have hpos := List.length_pos_of_mem hn
  refine ⟨?_, h.idle_le, ?_⟩
  · simp only [List.length_cons]; omega
  · intro x hx
    simp only [streams, List.mem_append, List.mem_cons] at hx
    rcases hx with hx | rfl | hx
    · exact h.own x (List.mem_append_left _ hx)
    · exact hs
    · exact h.own x (List.mem_append_right _ hx)

theorem Sound.connectFailed (h : l.Sound places) (hn : n ∈ l.connecting) :
    { l with connecting := l.connecting.erase n }.vacate.Sound places := by
  have h1 := h.taken
  have h2 := h.idle_le
  have hconnecting := List.length_erase_of_mem hn
  have hpos := List.length_pos_of_mem hn
  refine sound_vacate ?_ ?_ h.own
  · simp only; omega
  · simp only; omega

theorem Sound.putBack (h : l.Sound places) (hs : s ∈ l.held) :
    { l with held := l.held.erase s, idle := s :: l.idle, leaving := l.leaving + 1 }.Sound places := by
  have h1 := h.taken
  have h2 := h.idle_le
  have hheld := List.length_erase_of_mem hs
  have hpos := List.length_pos_of_mem hs
  refine ⟨?_, ?_, ?_⟩
  · simp only; omega
  · simp only [List.length_cons]; omega
  · intro x hx
    refine h.own x ?_
    simp only [streams, List.mem_append, List.mem_cons] at hx ⊢
    rcases hx with (rfl | hx) | hx
    · exact .inr hs
    · exact .inl hx
    · exact .inr (List.mem_of_mem_erase hx)

theorem Sound.leave (h : l.Sound places) (hl : 0 < l.leaving) :
    { l with leaving := l.leaving - 1 }.vacate.Sound places := by
  have h1 := h.taken
  have h2 := h.idle_le
  refine sound_vacate ?_ ?_ h.own
  · simp only; omega
  · simp only; omega

theorem Sound.drop (h : l.Sound places) (hs : s ∈ l.held) :
    { l with held := l.held.erase s }.vacate.Sound places := by
  have h1 := h.taken
  have h2 := h.idle_le
  have hheld := List.length_erase_of_mem hs
  have hpos := List.length_pos_of_mem hs
  refine sound_vacate ?_ ?_ ?_
  · simp only; omega
  · simp only; omega
  · intro x hx
    refine h.own x ?_
    simp only [streams, List.mem_append] at hx ⊢
    exact hx.imp_right List.mem_of_mem_erase

/-- Whoever has an idle connection, a holder or a checkout under way is not forgotten. -/
theorem isUnused_eq_false (h : l.idle ≠ [] ∨ l.held ≠ [] ∨ l.checkouts ≠ []) : l.isUnused = false := by
  rw [Bool.eq_false_iff]
  intro hu
  simp only [isUnused, Bool.and_eq_true, List.isEmpty_iff, beq_iff_eq] at hu
  obtain ⟨⟨⟨⟨⟨hw, hch⟩, hco⟩, hi⟩, hh⟩, -⟩ := hu
  rcases h with h | h | h
  · exact h hi
  · exact h hh
  · exact h (by simp only [checkouts, hw, hch, hco, List.append_nil])

theorem streams_of_isUnused (h : l.isUnused = true) : l.streams = [] := by
  simp only [isUnused, Bool.and_eq_true, List.isEmpty_iff] at h
  simp only [streams, h.1.1.2, h.1.2, List.append_nil]

end Lane

/-! ## All lanes -/

namespace Pool

variable {p q : Pool} {t : Target} {l : Lane} {n : Nat} {s : PooledStream}

/-- The connections that are idle. -/
def idleStreams (p : Pool) : List PooledStream := p.lanes.flatMap (·.idle)

/-- The connections that are checked out. -/
def heldStreams (p : Pool) : List PooledStream := p.lanes.flatMap (·.held)

/-- The account of a pool. Connections are told apart by their numbers. -/
structure Sound (p : Pool) : Prop where
  lanes : ∀ l ∈ p.lanes, l.Sound p.places
  targets : (p.lanes.map (·.target)).Nodup
  streams : ((p.lanes.flatMap Lane.streams ++ p.closed).map (·.number)).Perm (List.range p.opened)

theorem sound_new (maxPerTarget : Nat) : (new maxPerTarget).Sound := by
  constructor
  · intro l hl
    cases hl
  · exact List.nodup_nil
  · exact List.Perm.nil

theorem mem_of_lane? (h : p.lane? t = some l) : l ∈ p.lanes ∧ l.target = t := by
  unfold lane? at h
  exact ⟨List.mem_of_find?_eq_some h, by simpa using List.find?_some h⟩

/-- The lane of a target among the others. -/
theorem Sound.split (hp : p.Sound) (h : p.lane? t = some l) :
    ∃ before after, p.lanes = before ++ l :: after ∧ (∀ m ∈ before ++ after, m.target ≠ t) ∧
      ∀ f, (p.update t f).lanes = before ++ f l :: after := by
  obtain ⟨hl, before, after, hlanes, -⟩ := List.find?_eq_some_iff_append.1 h
  have ht : l.target = t := by simpa using hl
  have hothers : ∀ m ∈ before ++ after, m.target ≠ t := by
    have hnodup := hp.targets
    rw [hlanes, List.map_append, List.map_cons, List.nodup_middle, ← List.map_append, List.nodup_cons] at hnodup
    intro m hm hmt
    exact hnodup.1 (List.mem_map.2 ⟨m, hm, hmt.trans ht.symm⟩)
  have hsame : ∀ (f : Lane → Lane) (ms : List Lane), (∀ m ∈ ms, m.target ≠ t) →
      ms.map (fun m => if m.target == t then f m else m) = ms := by
    intro f ms hms
    refine (List.map_congr_left fun m hm => ?_).trans (List.map_id ms)
    rw [if_neg (by simpa using hms m hm)]
    rfl
  refine ⟨before, after, hlanes, hothers, ?_⟩
  intro f
  simp only [update, hlanes, List.map_append, List.map_cons]
  rw [hsame f before fun m hm => hothers m (List.mem_append_left _ hm),
    hsame f after fun m hm => hothers m (List.mem_append_right _ hm), if_pos (by simpa using ht)]

/-- A change of one lane keeps the account: what the lane had, what was closed and what is opened now is in the lane
or closed afterwards. -/
theorem Sound.of_update (hp : p.Sound) (h : p.lane? t = some l) {f : Lane → Lane} {fresh : List PooledStream}
    (hlanes : q.lanes = (p.update t f).lanes) (hplaces : q.places = p.places)
    (hopened : List.range q.opened = List.range p.opened ++ fresh.map (·.number))
    (htarget : (f l).target = l.target) (hsound : (f l).Sound p.places)
    (hstreams : ((f l).streams ++ q.closed).Perm (l.streams ++ p.closed ++ fresh)) : q.Sound := by
  obtain ⟨before, after, hbefore, -, hafter⟩ := hp.split h
  rw [hafter f] at hlanes
  have hother : ∀ m ∈ before ++ after, m.Sound p.places := by
    intro m hm
    refine hp.lanes m ?_
    rw [hbefore, List.mem_append, List.mem_cons]
    rcases List.mem_append.1 hm with hm | hm
    · exact .inl hm
    · exact .inr (.inr hm)
  refine ⟨?_, ?_, ?_⟩
  · intro m hm
    rw [hlanes, List.mem_append, List.mem_cons] at hm
    rw [hplaces]
    rcases hm with hm | rfl | hm
    · exact hother m (List.mem_append_left _ hm)
    · exact hsound
    · exact hother m (List.mem_append_right _ hm)
  · have htargets := hp.targets
    rw [hbefore, List.map_append, List.map_cons] at htargets
    rw [hlanes, List.map_append, List.map_cons, htarget]
    exact htargets
  · -- the streams of the other lanes stand on both sides
    have hmoved : ∀ (m : Lane) (closed : List PooledStream),
        ((before ++ m :: after).flatMap Lane.streams ++ closed).Perm
          ((before ++ after).flatMap Lane.streams ++ (m.streams ++ closed)) := by
      intro m closed
      simp only [List.flatMap_append, List.flatMap_cons, List.append_assoc]
      refine List.Perm.append_left _ ?_
      rw [← List.append_assoc, ← List.append_assoc]
      exact List.Perm.append_right _ List.perm_append_comm
    have hperm : (q.lanes.flatMap Lane.streams ++ q.closed).Perm
        (p.lanes.flatMap Lane.streams ++ p.closed ++ fresh) := by
      rw [hlanes, hbefore]
      refine (hmoved (f l) q.closed).trans ((List.Perm.append_left _ hstreams).trans ?_)
      rw [← List.append_assoc]
      exact List.Perm.append_right _ (hmoved l p.closed).symm
    refine (hperm.map _).trans ?_
    rw [List.map_append, hopened]
    exact List.Perm.append_right _ hp.streams

/-! ## Lanes that are tracked and forgotten -/

theorem lane?_update (p : Pool) (t : Target) {f : Lane → Lane} (hf : ∀ l, (f l).target = l.target) :
    (p.update t f).lane? t = (p.lane? t).map f := by
  have htarget : ((fun m : Lane => m.target == t) ∘ fun m => if m.target == t then f m else m) =
      fun m => m.target == t := by
    funext m
    simp only [Function.comp_apply]
    split
    · rw [hf]
    · rfl
  simp only [lane?, update, List.find?_map, htarget]
  cases h : p.lanes.find? fun m => m.target == t with
  | none => rfl
  | some l => simp only [Option.map_some, List.find?_some h, if_true]

/-- The lanes that a checkout for a target does not forget. -/
def kept (t : Target) (p : Pool) : List Lane := p.lanes.filter fun l => l.target == t || !l.isUnused

theorem lanes_track (t : Target) (p : Pool) :
    ((p.track t).lanes = p.kept t ∧ ∃ l ∈ p.kept t, l.target = t) ∨
      (p.track t).lanes = p.kept t ++ [.new t p.places] ∧ ∀ l ∈ p.kept t, l.target ≠ t := by
  unfold track
  by_cases h : ((p.kept t).any fun l => l.target == t) = true
  · obtain ⟨l, hl, ht⟩ := List.any_eq_true.1 h
    exact .inl ⟨if_pos h, l, hl, by simpa using ht⟩
  · refine .inr ⟨if_neg h, ?_⟩
    intro l hl ht
    exact h (List.any_eq_true.2 ⟨l, hl, by simpa using ht⟩)

/-- A target that has a connection, a holder or a checkout is not forgotten. -/
theorem mem_track (t : Target) (hl : l ∈ p.lanes) (hu : l.isUnused = false) : l ∈ (p.track t).lanes := by
  have hkept : l ∈ p.kept t := List.mem_filter.2 ⟨hl, by rw [hu]; simp⟩
  rcases lanes_track t p with ⟨h, -⟩ | ⟨h, -⟩
  · rw [h]; exact hkept
  · rw [h]; exact List.mem_append_left _ hkept

theorem mem_of_track (hl : l ∈ (p.track t).lanes) : l ∈ p.lanes ∨ l = .new t p.places := by
  rcases lanes_track t p with ⟨h, -⟩ | ⟨h, -⟩
  · rw [h] at hl
    exact .inl (List.mem_filter.1 hl).1
  · rw [h, List.mem_append, List.mem_singleton] at hl
    exact hl.imp_left fun hl => (List.mem_filter.1 hl).1

/-- The target of a checkout is tracked. -/
theorem lane?_track (t : Target) (p : Pool) : ∃ l, (p.track t).lane? t = some l := by
  refine Option.isSome_iff_exists.1 (List.find?_isSome.2 ?_)
  rcases lanes_track t p with ⟨h, l, hl, ht⟩ | ⟨h, -⟩
  · exact ⟨l, h ▸ hl, by simpa using ht⟩
  · refine ⟨.new t p.places, ?_, by simp [Lane.new]⟩
    rw [h]
    exact List.mem_append_right _ (List.mem_singleton_self _)

/-- What the lanes hold is not changed when unused lanes are forgotten and a new one is tracked. -/
theorem flatMap_track {f : Lane → List PooledStream} (hunused : ∀ l : Lane, l.isUnused = true → f l = [])
    (hnew : f (.new t p.places) = []) : (p.track t).lanes.flatMap f = p.lanes.flatMap f := by
  have hkept : (p.kept t).flatMap f = p.lanes.flatMap f := by
    unfold kept
    induction p.lanes with
    | nil => rfl
    | cons l ls ih =>
      rw [List.filter_cons]
      split
      · rw [List.flatMap_cons, List.flatMap_cons, ih]
      · next hdropped =>
        rw [Bool.or_eq_true, not_or, Bool.not_eq_true', Bool.not_eq_false] at hdropped
        rw [List.flatMap_cons, hunused l hdropped.2, List.nil_append, ih]
  rcases lanes_track t p with ⟨h, -⟩ | ⟨h, -⟩
  · rw [h, hkept]
  · rw [h, List.flatMap_append, hkept, List.flatMap_singleton, hnew, List.append_nil]

theorem Sound.track (hp : p.Sound) (t : Target) : (p.track t).Sound := by
  refine ⟨?_, ?_, ?_⟩
  · intro l hl
    rcases mem_of_track hl with hl | rfl
    · exact hp.lanes l hl
    · exact Lane.sound_new t p.places
  · have hkept : ((p.kept t).map (·.target)).Nodup :=
      hp.targets.sublist (List.Sublist.map _ List.filter_sublist)
    rcases lanes_track t p with ⟨h, -⟩ | ⟨h, hnew⟩
    · rw [h]; exact hkept
    · rw [h, List.map_append, List.map_singleton]
      refine List.nodup_append.2 ⟨hkept, List.nodup_singleton _, ?_⟩
      rintro a ha b hb rfl
      obtain ⟨l, hl, hlt⟩ := List.mem_map.1 ha
      exact hnew l hl (hlt.trans (List.mem_singleton.1 hb))
  · have hstreams := flatMap_track (p := p) (t := t) (f := Lane.streams) (fun _ => Lane.streams_of_isUnused) rfl
    show (((p.track t).lanes.flatMap Lane.streams ++ p.closed).map _).Perm _
    rw [hstreams]
    exact hp.streams

end Pool

end Hypertext
