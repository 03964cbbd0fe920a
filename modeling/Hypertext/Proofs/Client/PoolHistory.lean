/-
Histories of a pool: any number of checkouts for any targets, each of which waits, gives up, takes an idle connection,
finds one stale, connects or fails to, among holders who give their connections back or drop them, in any order. The
account of the pool holds after each of them, and so does what the history tells of who holds what.
-/
import Hypertext.Proofs.Client.PoolAccount

namespace Hypertext

/-- What shows of a step: a checkout begins, it is given a connection, or a holder is done with a connection. -/
inductive PoolEvent
  | entered (checkout : Nat) (target : Target)
  | yielded (checkout : Nat) (stream : PooledStream)
  | returned (stream : PooledStream)
  deriving DecidableEq, Repr

namespace PoolEvent

/-- Whether a checkout is given this connection. -/
def yields (s : PooledStream) : PoolEvent → Bool
  | .yielded _ stream => stream == s
  | _ => false

/-- Whether the holder of this connection is done with it. -/
def returns (s : PooledStream) : PoolEvent → Bool
  | .returned stream => stream == s
  | _ => false

/-- A checkout that is given a connection holds it. -/
theorem count_yielded (n : Nat) (s x : PooledStream) (held : List PooledStream) :
    [PoolEvent.yielded n s].countP (yields x) + held.count x =
      [PoolEvent.yielded n s].countP (returns x) + (s :: held).count x := by
  by_cases h : (s == x) = true
  · simp [yields, returns, h, List.count_cons, Nat.add_comm]
  · simp [yields, returns, h, List.count_cons]

/-- A holder that is done with a connection holds it no more. -/
theorem count_returned {s : PooledStream} {held : List PooledStream} (hs : s ∈ held) (x : PooledStream) :
    [PoolEvent.returned s].countP (yields x) + held.count x =
      [PoolEvent.returned s].countP (returns x) + (held.erase s).count x := by
  have hperm := (List.perm_cons_erase hs).count_eq x
  rw [hperm]
  by_cases h : (s == x) = true
  · simp [yields, returns, h, List.count_cons, Nat.add_comm]
  · simp [yields, returns, h, List.count_cons]

end PoolEvent

namespace Pool

/-- What can happen to a pool. Lanes are pruned by a checkout that has not asked for a place yet; which idle
connections are stale, which attempts to connect fail, and who acts next is up to the outside. -/
inductive Step : Pool → List PoolEvent → Pool → Prop
  | prune {p : Pool} (t : Target) : Step p [] (p.track t)
  | enter {p : Pool} (t : Target) : Step p [.entered (p.enter t).1 t] (p.enter t).2
  | giveUp {p : Pool} {t : Target} {l : Lane} {n : Nat} (lane : p.lane? t = some l) (waits : n ∈ l.waiting) :
      Step p [] (p.giveUp t n)
  | reuse {p : Pool} {t : Target} {l : Lane} {n : Nat} {s : PooledStream} (lane : p.lane? t = some l)
      (chooses : n ∈ l.choosing) (found : p.candidate? t = some s) : Step p [.yielded n s] (p.reuse n s)
  | discard {p : Pool} {t : Target} {l : Lane} {n : Nat} {s : PooledStream} (lane : p.lane? t = some l)
      (chooses : n ∈ l.choosing) (found : p.candidate? t = some s) : Step p [] (p.discard s)
  | beginConnect {p : Pool} {t : Target} {l : Lane} {n : Nat} (lane : p.lane? t = some l) (chooses : n ∈ l.choosing)
      (found : p.candidate? t = none) : Step p [] (p.beginConnect t n)
  | connected {p : Pool} {t : Target} {l : Lane} {n : Nat} (lane : p.lane? t = some l) (connects : n ∈ l.connecting) :
      Step p [.yielded n (p.connected t n).1] (p.connected t n).2
  | connectFailed {p : Pool} {t : Target} {l : Lane} {n : Nat} (lane : p.lane? t = some l)
      (connects : n ∈ l.connecting) : Step p [] (p.connectFailed t n)
  | putBack {p : Pool} {l : Lane} {s : PooledStream} (lane : p.lane? s.target = some l) (held : s ∈ l.held) :
      Step p [.returned s] (p.putBack s)
  | leave {p : Pool} {t : Target} {l : Lane} (lane : p.lane? t = some l) (leaves : 0 < l.leaving) :
      Step p [] (p.leave t)
  | drop {p : Pool} {l : Lane} {s : PooledStream} (lane : p.lane? s.target = some l) (held : s ∈ l.held) :
      Step p [.returned s] (p.drop s)

/-- Steps one after another, with all that shows of them. -/
inductive Run (start : Pool) : List PoolEvent → Pool → Prop
  | refl : Run start [] start
  | step {events shown : List PoolEvent} {p q : Pool} (run : Run start events p) (next : Step p shown q) :
      Run start (events ++ shown) q

variable {p q start : Pool} {t : Target} {l : Lane} {n : Nat} {s : PooledStream} {f : Lane → Lane}
  {events shown : List PoolEvent}

/-! ## What a step does -/

/-- A step changes one lane, and what shows of it tells what happens to the connections in the lane. -/
structure Change (p : Pool) (l : Lane) (f : Lane → Lane) (shown : List PoolEvent) (q : Pool) : Prop where
  lanes : q.lanes = (p.update l.target f).lanes
  places : q.places = p.places
  nextCheckout : q.nextCheckout = p.nextCheckout
  target : (f l).target = l.target
  sound : (f l).Sound p.places
  streams : ∃ fresh : List PooledStream, List.range q.opened = List.range p.opened ++ fresh.map (·.number) ∧
    ((f l).streams ++ q.closed).Perm (l.streams ++ p.closed ++ fresh)
  checkouts : ∀ n ∈ (f l).checkouts, n ∈ l.checkouts
  entered : ∀ n t, .entered n t ∉ shown
  yielded : ∀ n s, .yielded n s ∈ shown → n ∈ l.checkouts ∧ s.target = l.target
  held : ∀ s, shown.countP (PoolEvent.yields s) + l.held.count s =
    shown.countP (PoolEvent.returns s) + (f l).held.count s

/-- A change that neither opens nor closes, gives nor takes a connection. -/
theorem Change.of_quiet (lanes : q.lanes = (p.update l.target f).lanes) (places : q.places = p.places)
    (nextCheckout : q.nextCheckout = p.nextCheckout) (opened : q.opened = p.opened) (target : (f l).target = l.target)
    (sound : (f l).Sound p.places) (streams : ((f l).streams ++ q.closed).Perm (l.streams ++ p.closed))
    (checkouts : ∀ n ∈ (f l).checkouts, n ∈ l.checkouts) (held : (f l).held = l.held) : Change p l f [] q where
  lanes := lanes
  places := places
  nextCheckout := nextCheckout
  target := target
  sound := sound
  streams := ⟨[], by rw [opened, List.map_nil, List.append_nil], by rw [List.append_nil]; exact streams⟩
  checkouts := checkouts
  entered := by simp
  yielded := by simp
  held s := by simp [held]

theorem mem_idle_of_candidate (hl : p.lane? t = some l) (hs : p.candidate? t = some s) : s ∈ l.idle := by
  rw [candidate?, hl] at hs
  exact List.mem_of_mem_head? hs

theorem idle_of_candidate (hl : p.lane? t = some l) (hs : p.candidate? t = none) : l.idle = [] := by
  rw [candidate?, hl] at hs
  exact List.head?_eq_none_iff.1 hs

/-- A connection that is taken out of the one list and put into the other. -/
theorem perm_moved {xs : List PooledStream} (hs : s ∈ xs) (ys : List PooledStream) :
    (xs.erase s ++ s :: ys).Perm (xs ++ ys) :=
  List.perm_middle.trans (List.Perm.append_right ys (List.perm_cons_erase hs).symm)

theorem mem_checkouts_of_waiting (h : n ∈ l.waiting) : n ∈ l.checkouts := List.mem_append_left _ h

theorem mem_checkouts_of_choosing (h : n ∈ l.choosing) : n ∈ l.checkouts :=
  List.mem_append_right _ (List.mem_append_left _ h)

theorem mem_checkouts_of_connecting (h : n ∈ l.connecting) : n ∈ l.checkouts :=
  List.mem_append_right _ (List.mem_append_right _ h)

theorem giveUp_change (hp : p.Sound) (hl : p.lane? t = some l) (n : Nat) :
    ∃ f, Change p l f [] (p.giveUp t n) := by
  obtain ⟨hmem, rfl⟩ := mem_of_lane? hl
  have hsound := hp.lanes l hmem
  refine ⟨_, .of_quiet rfl rfl rfl rfl rfl ⟨hsound.taken, hsound.idle_le, hsound.own⟩ (List.Perm.refl _) ?_ rfl⟩
  intro m hm
  rcases List.mem_append.1 hm with hm | hm
  · exact mem_checkouts_of_waiting (List.mem_of_mem_erase hm)
  · exact List.mem_append_right _ hm

theorem reuse_change (hp : p.Sound) (hl : p.lane? t = some l) (hn : n ∈ l.choosing) (hs : p.candidate? t = some s) :
    ∃ f, Change p l f [.yielded n s] (p.reuse n s) := by
  obtain ⟨hmem, rfl⟩ := mem_of_lane? hl
  have hsound := hp.lanes l hmem
  have hidle := mem_idle_of_candidate hl hs
  have hown : s.target = l.target := hsound.own s (List.mem_append_left _ hidle)
  refine ⟨fun l => { l with choosing := l.choosing.erase n, idle := l.idle.erase s, held := s :: l.held }, ?_⟩
  constructor
  case lanes => rw [reuse, hown]
  case places => rfl
  case nextCheckout => rfl
  case target => rfl
  case sound => exact hsound.reuse hn hidle
  case streams =>
    refine ⟨[], by simp [reuse, update], ?_⟩
    rw [List.append_nil]
    exact List.Perm.append_right _ (perm_moved hidle l.held)
  case checkouts =>
    intro m hm
    rcases List.mem_append.1 hm with hm | hm
    · exact mem_checkouts_of_waiting hm
    · rcases List.mem_append.1 hm with hm | hm
      · exact mem_checkouts_of_choosing (List.mem_of_mem_erase hm)
      · exact mem_checkouts_of_connecting hm
  case entered => simp
  case yielded =>
    intro m x hx
    obtain ⟨rfl, rfl⟩ : m = n ∧ x = s := by simpa using hx
    exact ⟨mem_checkouts_of_choosing hn, hown⟩
  case held => exact fun x => PoolEvent.count_yielded n s x l.held

theorem discard_change (hp : p.Sound) (hl : p.lane? t = some l) (hs : p.candidate? t = some s) :
    ∃ f, Change p l f [] (p.discard s) := by
  obtain ⟨hmem, rfl⟩ := mem_of_lane? hl
  have hsound := hp.lanes l hmem
  have hidle := mem_idle_of_candidate hl hs
  have hown : s.target = l.target := hsound.own s (List.mem_append_left _ hidle)
  refine ⟨fun l => { l with idle := l.idle.erase s },
    .of_quiet ?_ rfl rfl rfl rfl (hsound.discard s) ?_ (fun _ h => h) rfl⟩
  · rw [discard, hown]
  · show ((l.idle.erase s ++ l.held) ++ s :: p.closed).Perm _
    refine List.perm_middle.trans ?_
    exact List.Perm.append_right p.closed (List.Perm.append_right l.held (List.perm_cons_erase hidle).symm)

theorem beginConnect_change (hp : p.Sound) (hl : p.lane? t = some l) (hn : n ∈ l.choosing)
    (hs : p.candidate? t = none) : ∃ f, Change p l f [] (p.beginConnect t n) := by
  obtain ⟨hmem, rfl⟩ := mem_of_lane? hl
  have hsound := hp.lanes l hmem
  refine ⟨_, .of_quiet rfl rfl rfl rfl rfl (hsound.beginConnect hn (idle_of_candidate hl hs)) (List.Perm.refl _) ?_
    rfl⟩
  intro m hm
  simp only [Lane.checkouts, List.mem_append, List.mem_singleton] at hm ⊢
  rcases hm with hm | hm | hm | rfl
  · exact .inl hm
  · exact .inr (.inl (List.mem_of_mem_erase hm))
  · exact .inr (.inr hm)
  · exact .inr (.inl hn)

theorem connected_change (hp : p.Sound) (hl : p.lane? t = some l) (hn : n ∈ l.connecting) :
    ∃ f, Change p l f [.yielded n (p.connected t n).1] (p.connected t n).2 := by
  obtain ⟨hmem, rfl⟩ := mem_of_lane? hl
  have hsound := hp.lanes l hmem
  refine ⟨fun m => { m with connecting := m.connecting.erase n, held := ⟨p.opened, l.target⟩ :: m.held }, ?_⟩
  constructor
  case lanes => rfl
  case places => rfl
  case nextCheckout => rfl
  case target => rfl
  case sound => exact hsound.connected hn rfl
  case streams =>
    refine ⟨[⟨p.opened, l.target⟩], List.range_succ, ?_⟩
    show ((l.idle ++ _ :: l.held) ++ p.closed).Perm ((l.idle ++ l.held) ++ p.closed ++ [_])
    rw [List.append_assoc, List.cons_append]
    refine List.perm_middle.trans ?_
    rw [← List.append_assoc]
    exact (List.perm_append_singleton _ _).symm
  case checkouts =>
    intro m hm
    rcases List.mem_append.1 hm with hm | hm
    · exact mem_checkouts_of_waiting hm
    · rcases List.mem_append.1 hm with hm | hm
      · exact mem_checkouts_of_choosing hm
      · exact mem_checkouts_of_connecting (List.mem_of_mem_erase hm)
  case entered => simp
  case yielded =>
    intro m x hx
    obtain ⟨rfl, rfl⟩ : m = n ∧ x = ⟨p.opened, l.target⟩ := by simpa [connected] using hx
    exact ⟨mem_checkouts_of_connecting hn, rfl⟩
  case held => exact fun x => PoolEvent.count_yielded n _ x l.held

theorem connectFailed_change (hp : p.Sound) (hl : p.lane? t = some l) (hn : n ∈ l.connecting) :
    ∃ f, Change p l f [] (p.connectFailed t n) := by
  obtain ⟨hmem, rfl⟩ := mem_of_lane? hl
  have hsound := hp.lanes l hmem
  refine ⟨_, .of_quiet rfl rfl rfl rfl Lane.target_vacate (hsound.connectFailed hn) ?_ ?_ Lane.held_vacate⟩
  · rw [Lane.streams_vacate]
    exact List.Perm.refl _
  · intro m hm
    rw [Lane.mem_checkouts_vacate] at hm
    simp only [Lane.checkouts, List.mem_append] at hm ⊢
    exact hm.imp_right fun hm => hm.imp_right List.mem_of_mem_erase

theorem putBack_change (hp : p.Sound) (hl : p.lane? s.target = some l) (hs : s ∈ l.held) :
    ∃ f, Change p l f [.returned s] (p.putBack s) := by
  obtain ⟨hmem, htarget⟩ := mem_of_lane? hl
  have hsound := hp.lanes l hmem
  refine ⟨fun l => { l with held := l.held.erase s, idle := s :: l.idle, leaving := l.leaving + 1 }, ?_⟩
  constructor
  case lanes => rw [putBack, htarget]
  case places => rfl
  case nextCheckout => rfl
  case target => rfl
  case sound => exact hsound.putBack hs
  case streams =>
    refine ⟨[], by simp [putBack, update], ?_⟩
    rw [List.append_nil]
    refine List.Perm.append_right _ ?_
    show (s :: l.idle ++ l.held.erase s).Perm (l.idle ++ l.held)
    exact List.perm_middle.symm.trans (List.Perm.append_left _ (List.perm_cons_erase hs).symm)
  case checkouts => exact fun _ h => h
  case entered => simp
  case yielded => simp
  case held => exact PoolEvent.count_returned hs

theorem leave_change (hp : p.Sound) (hl : p.lane? t = some l) (hpos : 0 < l.leaving) :
    ∃ f, Change p l f [] (p.leave t) := by
  obtain ⟨hmem, rfl⟩ := mem_of_lane? hl
  have hsound := hp.lanes l hmem
  refine ⟨_, .of_quiet rfl rfl rfl rfl Lane.target_vacate (hsound.leave hpos) ?_ ?_ Lane.held_vacate⟩
  · rw [Lane.streams_vacate]
    exact List.Perm.refl _
  · intro m hm
    rw [Lane.mem_checkouts_vacate] at hm
    exact hm

theorem drop_change (hp : p.Sound) (hl : p.lane? s.target = some l) (hs : s ∈ l.held) :
    ∃ f, Change p l f [.returned s] (p.drop s) := by
  obtain ⟨hmem, htarget⟩ := mem_of_lane? hl
  have hsound := hp.lanes l hmem
  refine ⟨fun l => { l with held := l.held.erase s }.vacate, ?_⟩
  constructor
  case lanes => rw [drop, htarget]
  case places => rfl
  case nextCheckout => rfl
  case target => exact Lane.target_vacate
  case sound => exact hsound.drop hs
  case streams =>
    refine ⟨[], by simp [drop, update], ?_⟩
    rw [List.append_nil, Lane.streams_vacate]
    show ((l.idle ++ l.held.erase s) ++ s :: p.closed).Perm ((l.idle ++ l.held) ++ p.closed)
    rw [List.append_assoc, List.append_assoc]
    exact List.Perm.append_left _ (perm_moved hs p.closed)
  case checkouts =>
    intro m hm
    rw [Lane.mem_checkouts_vacate] at hm
    exact hm
  case entered => simp
  case yielded => simp
  case held =>
    rw [Lane.held_vacate]
    exact PoolEvent.count_returned hs

/-- Every step forgets and tracks lanes, begins a checkout, or changes one lane. -/
theorem Step.change (h : Step p shown q) (hp : p.Sound) :
    (∃ t, shown = [] ∧ q = p.track t) ∨ (∃ t, shown = [.entered (p.enter t).1 t] ∧ q = (p.enter t).2) ∨
      ∃ l f, p.lane? l.target = some l ∧ Change p l f shown q := by
  have hchange : ∀ {t l}, p.lane? t = some l → (∃ f, Change p l f shown q) →
      ∃ l f, p.lane? l.target = some l ∧ Change p l f shown q := by
    rintro t l hl ⟨f, hf⟩
    exact ⟨l, f, (mem_of_lane? hl).2.symm ▸ hl, hf⟩
  cases h with
  | prune t => exact .inl ⟨t, rfl, rfl⟩
  | enter t => exact .inr (.inl ⟨t, rfl, rfl⟩)
  | giveUp hl _ => exact .inr (.inr (hchange hl (giveUp_change hp hl _)))
  | reuse hl hn hs => exact .inr (.inr (hchange hl (reuse_change hp hl hn hs)))
  | discard hl _ hs => exact .inr (.inr (hchange hl (discard_change hp hl hs)))
  | beginConnect hl hn hs => exact .inr (.inr (hchange hl (beginConnect_change hp hl hn hs)))
  | connected hl hn => exact .inr (.inr (hchange hl (connected_change hp hl hn)))
  | connectFailed hl hn => exact .inr (.inr (hchange hl (connectFailed_change hp hl hn)))
  | putBack hl hs => exact .inr (.inr (hchange hl (putBack_change hp hl hs)))
  | leave hl hpos => exact .inr (.inr (hchange hl (leave_change hp hl hpos)))
  | drop hl hs => exact .inr (.inr (hchange hl (drop_change hp hl hs)))

/-! ## What every run keeps -/

theorem Change.keeps_sound (hc : Change p l f shown q) (hp : p.Sound) (hl : p.lane? l.target = some l) : q.Sound := by
  obtain ⟨fresh, hopened, hperm⟩ := hc.streams
  exact hp.of_update hl hc.lanes hc.places hopened hc.target hc.sound hperm

/-- A checkout begins in a lane that is tracked. -/
theorem enter_eq (t : Target) (p : Pool) : ∃ l, (p.track t).lane? t = some l ∧
    (p.enter t).2.lanes = ((p.track t).update t (Lane.enter p.nextCheckout)).lanes := by
  obtain ⟨l, hl⟩ := lane?_track t p
  exact ⟨l, hl, rfl⟩

theorem target_enter (n : Nat) (l : Lane) : (l.enter n).target = l.target := by
  unfold Lane.enter
  split <;> rfl

theorem streams_enter (n : Nat) (l : Lane) : (l.enter n).streams = l.streams := by
  unfold Lane.enter
  split <;> rfl

theorem held_enter (n : Nat) (l : Lane) : (l.enter n).held = l.held := by
  unfold Lane.enter
  split <;> rfl

theorem mem_checkouts_enter {m : Nat} (h : m ∈ (l.enter n).checkouts) : m ∈ l.checkouts ∨ m = n := by
  unfold Lane.enter at h
  split at h
  · simp only [Lane.checkouts, List.mem_append, List.mem_singleton] at h ⊢
    rcases h with h | (h | h) | h
    · exact .inl (.inl h)
    · exact .inl (.inr (.inl h))
    · exact .inr h
    · exact .inl (.inr (.inr h))
  · simp only [Lane.checkouts, List.mem_append, List.mem_singleton] at h ⊢
    rcases h with (h | h) | h
    · exact .inl (.inl h)
    · exact .inr h
    · exact .inl (.inr h)

theorem Sound.enter (hp : p.Sound) (t : Target) : (p.enter t).2.Sound := by
  obtain ⟨l, hl, hlanes⟩ := enter_eq t p
  have htrack := hp.track t
  have hopened : List.range (p.enter t).2.opened =
      List.range (p.track t).opened ++ ([] : List PooledStream).map (·.number) := (List.append_nil _).symm
  refine htrack.of_update hl hlanes rfl hopened (target_enter _ l)
    ((htrack.lanes l (mem_of_lane? hl).1).enter _) ?_
  rw [streams_enter, List.append_nil]
  exact List.Perm.refl _

theorem Step.sound (h : Step p shown q) (hp : p.Sound) : q.Sound := by
  rcases h.change hp with ⟨t, -, rfl⟩ | ⟨t, -, rfl⟩ | ⟨l, f, hl, hc⟩
  · exact hp.track t
  · exact hp.enter t
  · exact hc.keeps_sound hp hl

theorem Step.places (h : Step p shown q) (hp : p.Sound) : q.places = p.places := by
  rcases h.change hp with ⟨t, -, rfl⟩ | ⟨t, -, rfl⟩ | ⟨l, f, -, hc⟩
  · rfl
  · rfl
  · exact hc.places

/-- What a history tells of a pool: who asked for which target, and who holds what. -/
structure Told (events : List PoolEvent) (p : Pool) : Prop where
  asked : ∀ l ∈ p.lanes, ∀ n ∈ l.checkouts, .entered n l.target ∈ events
  earlier : ∀ n t, .entered n t ∈ events → n < p.nextCheckout
  once : ∀ n t t', .entered n t ∈ events → .entered n t' ∈ events → t = t'
  yielded : ∀ n s, .yielded n s ∈ events → .entered n s.target ∈ events
  holders : ∀ s, events.countP (PoolEvent.yields s) = events.countP (PoolEvent.returns s) + p.heldStreams.count s

theorem told_new (maxPerTarget : Nat) : Told [] (new maxPerTarget) := by
  constructor
  · intro l hl
    cases hl
  · intro n t h
    cases h
  · intro n t t' h
    cases h
  · intro n s h
    cases h
  · intro s
    rfl

theorem Told.track (ht : Told events p) (t : Target) : Told events (p.track t) := by
  refine ⟨?_, ht.earlier, ht.once, ht.yielded, ?_⟩
  · intro l hl n hn
    rcases mem_of_track hl with hl | rfl
    · exact ht.asked l hl n hn
    · cases hn
  · have hheld := flatMap_track (p := p) (t := t) (f := (·.held))
      (fun l hl => (List.append_eq_nil_iff.1 (Lane.streams_of_isUnused hl)).2) rfl
    intro s
    rw [heldStreams, hheld]
    exact ht.holders s

/-- How often a connection is held when one lane changes. -/
theorem Sound.count_held (hp : p.Sound) (hl : p.lane? t = some l) (hlanes : q.lanes = (p.update t f).lanes)
    (s : PooledStream) : q.heldStreams.count s + l.held.count s = p.heldStreams.count s + (f l).held.count s := by
  obtain ⟨before, after, hbefore, -, hafter⟩ := hp.split hl
  simp only [heldStreams, hlanes, hafter f, hbefore, List.flatMap_append, List.flatMap_cons, List.count_append]
  omega

theorem Sound.mem_update (hp : p.Sound) (hl : p.lane? t = some l) {m : Lane} (hm : m ∈ (p.update t f).lanes) :
    m ∈ p.lanes ∨ m = f l := by
  obtain ⟨before, after, hbefore, -, hafter⟩ := hp.split hl
  rw [hafter f, List.mem_append, List.mem_cons] at hm
  rw [hbefore, List.mem_append, List.mem_cons]
  rcases hm with hm | hm | hm
  · exact .inl (.inl hm)
  · exact .inr hm
  · exact .inl (.inr (.inr hm))

theorem Told.enter (ht : Told events p) (hp : p.Sound) (t : Target) :
    Told (events ++ [.entered (p.enter t).1 t]) (p.enter t).2 := by
  obtain ⟨l, hl, hlanes⟩ := enter_eq t p
  have htrack := hp.track t
  have hold := ht.track t
  -- the number of the checkout is new
  have hfresh : ∀ t', .entered p.nextCheckout t' ∉ events := fun t' h => Nat.lt_irrefl _ (ht.earlier _ _ h)
  have hentered : ∀ n t', .entered n t' ∈ events ++ [PoolEvent.entered (p.enter t).1 t] ↔
      .entered n t' ∈ events ∨ n = p.nextCheckout ∧ t' = t := by
    intro n t'
    rw [List.mem_append, List.mem_singleton, PoolEvent.entered.injEq]
    rfl
  constructor
  case asked =>
    intro m hm n hn
    rw [hlanes] at hm
    rw [hentered]
    rcases htrack.mem_update hl hm with hm | rfl
    · exact .inl (hold.asked m hm n hn)
    · rw [target_enter]
      rcases mem_checkouts_enter hn with hn | rfl
      · exact .inl (hold.asked l (mem_of_lane? hl).1 n hn)
      · exact .inr ⟨rfl, (mem_of_lane? hl).2⟩
  case earlier =>
    intro n t' h
    show n < p.nextCheckout + 1
    rcases (hentered n t').1 h with h | ⟨rfl, -⟩
    · exact Nat.lt_succ_of_lt (ht.earlier n t' h)
    · exact Nat.lt_succ_self _
  case once =>
    intro n t₁ t₂ h₁ h₂
    rcases (hentered n t₁).1 h₁ with hold₁ | ⟨hn, rfl⟩
    · rcases (hentered n t₂).1 h₂ with hold₂ | ⟨hn, -⟩
      · exact ht.once n t₁ t₂ hold₁ hold₂
      · exact absurd (hn ▸ hold₁) (hfresh t₁)
    · rcases (hentered n t₂).1 h₂ with hold₂ | ⟨-, rfl⟩
      · exact absurd (hn ▸ hold₂) (hfresh t₂)
      · rfl
  case yielded =>
    intro n s h
    have h : .yielded n s ∈ events := by simpa using h
    exact List.mem_append_left _ (ht.yielded n s h)
  case holders =>
    intro s
    have hcount := htrack.count_held hl hlanes s
    have hheld := hold.holders s
    rw [held_enter] at hcount
    simp only [List.countP_append, List.countP_singleton, PoolEvent.yields, PoolEvent.returns, Bool.false_eq_true,
      if_false]
    omega

theorem Told.change (ht : Told events p) (hp : p.Sound) (hl : p.lane? l.target = some l) (hc : Change p l f shown q) :
    Told (events ++ shown) q := by
  have hentered : ∀ n t', .entered n t' ∈ events ++ shown → .entered n t' ∈ events := by
    intro n t' h
    exact (List.mem_append.1 h).resolve_right (hc.entered n t')
  constructor
  case asked =>
    intro m hm n hn
    rw [hc.lanes] at hm
    refine List.mem_append_left _ ?_
    rcases hp.mem_update hl hm with hm | rfl
    · exact ht.asked m hm n hn
    · rw [hc.target]
      exact ht.asked l (mem_of_lane? hl).1 n (hc.checkouts n hn)
  case earlier =>
    intro n t' h
    rw [hc.nextCheckout]
    exact ht.earlier n t' (hentered n t' h)
  case once =>
    intro n t₁ t₂ h₁ h₂
    exact ht.once n t₁ t₂ (hentered n t₁ h₁) (hentered n t₂ h₂)
  case yielded =>
    intro n s h
    refine List.mem_append_left _ ?_
    rcases List.mem_append.1 h with h | h
    · exact ht.yielded n s h
    · obtain ⟨hn, hs⟩ := hc.yielded n s h
      rw [hs]
      exact ht.asked l (mem_of_lane? hl).1 n hn
  case holders =>
    intro s
    have hcount := hp.count_held hl hc.lanes s
    have hold := ht.holders s
    have hnew := hc.held s
    rw [List.countP_append, List.countP_append]
    omega

theorem Step.told (h : Step p shown q) (hp : p.Sound) (ht : Told events p) : Told (events ++ shown) q := by
  rcases h.change hp with ⟨t, rfl, rfl⟩ | ⟨t, rfl, rfl⟩ | ⟨l, f, hl, hc⟩
  · rw [List.append_nil]
    exact ht.track t
  · exact ht.enter hp t
  · exact ht.change hp hl hc

/-- The account holds after every run, and the history of the run tells who holds what. -/
theorem Run.keeps {maxPerTarget : Nat} (h : Run (new maxPerTarget) events p) :
    p.Sound ∧ p.places = max 1 maxPerTarget ∧ Told events p := by
  induction h with
  | refl => exact ⟨sound_new _, rfl, told_new _⟩
  | step _ next ih =>
    obtain ⟨hp, hplaces, ht⟩ := ih
    exact ⟨next.sound hp, (next.places hp).trans hplaces, next.told hp ht⟩

/-! ## Connections to one target -/

/-- The connections to a target that are idle or checked out. -/
def streamsTo (t : Target) (p : Pool) : List PooledStream :=
  (p.idleStreams ++ p.heldStreams).filter fun s => s.target == t

/-- How many connections to a target are being opened. -/
def connectingTo (t : Target) (p : Pool) : Nat :=
  ((p.lanes.filter fun l => l.target == t).flatMap (·.connecting)).length

/-- The lanes of other targets have no connection to a target. -/
theorem streamsTo_others {g : Lane → List PooledStream} {ls : List Lane} (h : ∀ m ∈ ls, m.target ≠ t)
    (hown : ∀ m ∈ ls, ∀ s ∈ g m, s.target = m.target) : ((ls.flatMap g).filter fun s => s.target == t) = [] := by
  rw [List.filter_eq_nil_iff]
  intro s hs
  obtain ⟨m, hm, hsm⟩ := List.mem_flatMap.1 hs
  rw [hown m hm s hsm]
  simpa using h m hm

/-- No more connections to a target are idle, checked out or being opened than it has places. -/
theorem Sound.busy_le (hp : p.Sound) (t : Target) : (p.streamsTo t).length + p.connectingTo t ≤ p.places := by
  have hidle : ∀ m ∈ p.lanes, ∀ s ∈ m.idle, s.target = m.target :=
    fun m hm s hs => (hp.lanes m hm).own s (List.mem_append_left _ hs)
  have hheld : ∀ m ∈ p.lanes, ∀ s ∈ m.held, s.target = m.target :=
    fun m hm s hs => (hp.lanes m hm).own s (List.mem_append_right _ hs)
  rw [streamsTo, List.filter_append, List.length_append, idleStreams, heldStreams, connectingTo]
  cases h : p.lane? t with
  | none =>
    have hnone : ∀ m ∈ p.lanes, m.target ≠ t := by
      intro m hm
      simpa using List.find?_eq_none.1 h m hm
    have hfilter : (p.lanes.filter fun l => l.target == t) = [] := by
      rw [List.filter_eq_nil_iff]
      intro m hm
      simpa using hnone m hm
    rw [streamsTo_others hnone hidle, streamsTo_others hnone hheld, hfilter]
    exact Nat.zero_le _
  | some l =>
    obtain ⟨before, after, hlanes, hothers, -⟩ := hp.split h
    have ht : l.target = t := (mem_of_lane? h).2
    have hbefore : ∀ m ∈ before, m.target ≠ t := fun m hm => hothers m (List.mem_append_left _ hm)
    have hafter : ∀ m ∈ after, m.target ≠ t := fun m hm => hothers m (List.mem_append_right _ hm)
    have hpart : ∀ g : Lane → List PooledStream, (∀ m ∈ p.lanes, ∀ s ∈ g m, s.target = m.target) →
        ((p.lanes.flatMap g).filter fun s => s.target == t).length ≤ (g l).length := by
      intro g hg
      rw [hlanes] at hg
      have h1 := streamsTo_others hbefore fun m hm => hg m (List.mem_append_left _ hm)
      have h2 := streamsTo_others hafter fun m hm => hg m (List.mem_append_right _ (List.mem_cons_of_mem _ hm))
      rw [hlanes, List.flatMap_append, List.flatMap_cons, List.filter_append, List.filter_append, h1, h2,
        List.nil_append, List.append_nil]
      exact List.length_filter_le _ _
    have hfilter : (p.lanes.filter fun l => l.target == t) = [l] := by
      rw [hlanes, List.filter_append, List.filter_cons_of_pos (by simpa using ht),
        List.filter_eq_nil_iff.2 fun m hm => by simpa using hbefore m hm,
        List.filter_eq_nil_iff.2 fun m hm => by simpa using hafter m hm]
      rfl
    have hbusy := (hp.lanes l (mem_of_lane? h).1).busy_le
    have h1 := hpart (·.idle) hidle
    have h2 := hpart (·.held) hheld
    rw [hfilter, List.flatMap_singleton]
    omega

/-- The connections that are not closed are idle or held. -/
theorem streams_perm (p : Pool) : (p.lanes.flatMap Lane.streams).Perm (p.idleStreams ++ p.heldStreams) := by
  rw [idleStreams, heldStreams]
  exact (List.flatMap_append_perm p.lanes (·.idle) (·.held)).symm

theorem length_idleStreams (p : Pool) : p.idleStreams.length = p.idle := by
  have hfold : ∀ (ls : List Lane) (n : Nat),
      ls.foldl (fun n l => n + l.idle.length) n = n + (ls.flatMap (·.idle)).length := by
    intro ls
    induction ls with
    | nil => intro n; rfl
    | cons l ls ih =>
      intro n
      rw [List.foldl_cons, ih, List.flatMap_cons, List.length_append, Nat.add_assoc]
  rw [idle, hfold, Nat.zero_add]
  rfl

/-- Every connection that was opened is idle, held or closed, and only one of these. -/
theorem Sound.partition (hp : p.Sound) :
    ((p.idleStreams ++ p.heldStreams ++ p.closed).map (·.number)).Perm (List.range p.opened) :=
  ((List.Perm.append_right p.closed (streams_perm p).symm).map _).trans hp.streams

/-- A connection is held at most once. -/
theorem Sound.count_held_le (hp : p.Sound) (s : PooledStream) :
    p.heldStreams.count s = if s ∈ p.heldStreams then 1 else 0 := by
  have hnumbers := hp.partition.nodup_iff.2 List.nodup_range
  have hheld : p.heldStreams.Nodup := (List.nodup_append.1 (List.nodup_append.1 hnumbers.of_map).1).2.1
  split
  · next h => exact List.count_eq_one_of_mem hheld h
  · next h => exact List.count_eq_zero_of_not_mem h

/-! ## A checkout by itself -/

/-- Some steps lead from a pool to what an operation for a checkout makes of it, and show the connection that it gives
to the checkout. -/
def Reaches (start : Pool) (events : List PoolEvent) (n : Nat) (result : Except ClientError PooledStream × Pool) : Prop :=
  ∃ later, Run start (events ++ later) result.2 ∧ ∀ s, result.1 = .ok s → .yielded n s ∈ events ++ later

theorem Reaches.of_run {result : Except ClientError PooledStream × Pool} {later : List PoolEvent}
    (h : Reaches start (events ++ later) n result) : Reaches start events n result := by
  obtain ⟨more, hrun, hyields⟩ := h
  rw [List.append_assoc] at hrun hyields
  exact ⟨later ++ more, hrun, hyields⟩

theorem connect_reaches (hrun : Run start events p) (hl : p.lane? t = some l) (hn : n ∈ l.choosing)
    (hnone : p.candidate? t = none) (limit : Duration) (outcome : ConnectOutcome) :
    Reaches start events n (p.connect limit outcome t n) := by
  have hbegun : Run start (events ++ []) (p.beginConnect t n) := hrun.step (.beginConnect hl hn hnone)
  have hlane : (p.beginConnect t n).lane? t =
      some { l with choosing := l.choosing.erase n, connecting := l.connecting ++ [n] } := by
    rw [beginConnect, lane?_update]
    · rw [hl]
      rfl
    · exact fun _ => rfl
  have hconnects : n ∈ l.connecting ++ [n] := List.mem_append_right _ (List.mem_singleton_self n)
  suffices h : Reaches start (events ++ []) n (p.connect limit outcome t n) from h.of_run
  unfold connect
  cases outcome with
  | connected =>
    refine ⟨_, hbegun.step (.connected hlane hconnects), ?_⟩
    rintro s ⟨⟩
    exact List.mem_append_right _ (List.mem_singleton_self _)
  | failed reason =>
    refine ⟨_, hbegun.step (.connectFailed hlane hconnects), ?_⟩
    rintro s ⟨⟩
  | timedOut =>
    refine ⟨_, hbegun.step (.connectFailed hlane hconnects), ?_⟩
    rintro s ⟨⟩

/-- There are as many steps as idle connections, so that all of them are looked at before a new one is opened. -/
theorem choose_reaches (isStale : PooledStream → Bool) (limit : Duration) (outcome : ConnectOutcome) :
    ∀ (steps : Nat) {p : Pool} {l : Lane} {events : List PoolEvent}, Run start events p → p.Sound →
      p.lane? t = some l → n ∈ l.choosing → l.idle.length ≤ steps →
        Reaches start events n (p.choose isStale limit outcome t n steps)
  | 0, p, l, events, hrun, _, hl, hn, hle => by
    have hnone : p.candidate? t = none := by
      rw [candidate?, hl, Option.bind_some, List.eq_nil_of_length_eq_zero (Nat.le_zero.1 hle)]
      rfl
    exact connect_reaches hrun hl hn hnone limit outcome
  | steps + 1, p, l, events, hrun, hp, hl, hn, hle => by
    unfold choose
    split
    · next hnone => exact connect_reaches hrun hl hn hnone limit outcome
    · next s hs =>
      split
      · have hidle := mem_idle_of_candidate hl hs
        have hdiscard : Step p [] (p.discard s) := .discard hl hn hs
        have htarget : s.target = t :=
          ((hp.lanes l (mem_of_lane? hl).1).own s (List.mem_append_left _ hidle)).trans (mem_of_lane? hl).2
        have hlane : (p.discard s).lane? t = some { l with idle := l.idle.erase s } := by
          show (p.update s.target _).lane? t = _
          rw [htarget, lane?_update]
          · rw [hl]
            rfl
          · exact fun _ => rfl
        have hlength : (l.idle.erase s).length ≤ steps := by
          rw [List.length_erase_of_mem hidle]
          omega
        exact (choose_reaches isStale limit outcome steps (hrun.step hdiscard) (hdiscard.sound hp) hlane hn
          hlength).of_run
      · refine ⟨_, hrun.step (.reuse hl hn hs), ?_⟩
        rintro x ⟨⟩
        exact List.mem_append_right _ (List.mem_singleton_self _)

/-- A checkout while nobody else acts is one of the ways in which steps can follow each other. -/
theorem checkout_reaches (hrun : Run start events p) (hp : p.Sound) (limits : CheckoutLimits)
    (isStale : PooledStream → Bool) (outcome : ConnectOutcome) (t : Target) :
    Reaches start (events ++ [.entered p.nextCheckout t]) p.nextCheckout (p.checkout limits isStale outcome t) := by
  have hentered : Run start (events ++ [.entered p.nextCheckout t]) (p.enter t).2 := hrun.step (.enter t)
  have hsound := hp.enter t
  obtain ⟨l, hl, -⟩ := enter_eq t p
  have hlane : (p.enter t).2.lane? t = some (l.enter p.nextCheckout) := by
    show ((p.track t).update t _).lane? t = _
    rw [lane?_update]
    · rw [hl]
      rfl
    · exact target_enter _
  have hlength : (l.enter p.nextCheckout).idle.length ≤ (p.enter t).2.idle := by
    obtain ⟨before, after, hlanes⟩ := List.append_of_mem (mem_of_lane? hlane).1
    rw [← length_idleStreams, idleStreams, hlanes, List.flatMap_append, List.flatMap_cons, List.length_append,
      List.length_append]
    omega
  show Reaches _ _ _ (if (p.enter t).2.mayChoose t p.nextCheckout then _ else _)
  split
  · next hmay =>
    rw [mayChoose, hlane, Option.any_some, List.contains_iff_mem] at hmay
    exact choose_reaches isStale limits.connect outcome _ hentered hsound hlane hmay hlength
  · next hmay =>
    rw [mayChoose, hlane, Option.any_some, List.contains_iff_mem] at hmay
    -- a checkout that has no place waits for one
    have hwaits : p.nextCheckout ∈ (l.enter p.nextCheckout).waiting := by
      unfold Lane.enter at hmay ⊢
      split at hmay
      · exact absurd (List.mem_append_right _ (List.mem_singleton_self _)) hmay
      · next hfull =>
        rw [if_neg hfull]
        exact List.mem_append_right _ (List.mem_singleton_self _)
    refine ⟨[], hentered.step (.giveUp hlane hwaits), ?_⟩
    rintro s ⟨⟩

/-! ## The account -/

/-- A checkout is only ever given a connection of the target it was begun for. -/
theorem Told.yields_own (ht : Told events p) (h : .yielded n s ∈ events) :
    .entered n s.target ∈ events ∧ ∀ t, .entered n t ∈ events → s.target = t :=
  ⟨ht.yielded n s h, fun t hn => ht.once n s.target t (ht.yielded n s h) hn⟩

/-- In whatever order things happen to a pool, no target has more connections than places; each connection that was
opened is idle, held or closed, and only one of these, and no two checkouts hold it at a time; a checkout is given
connections of its own target only; and pruning keeps every lane that has a connection, a holder or a checkout. The
operation that checks a connection out while nobody else acts is a part of such a history. -/
theorem account_of_run {maxPerTarget : Nat} (h : Run (new maxPerTarget) events p) :
    (∀ t, (p.streamsTo t).length + p.connectingTo t ≤ max 1 maxPerTarget) ∧
    ((p.idleStreams ++ p.heldStreams ++ p.closed).map (·.number)).Perm (List.range p.opened) ∧
    p.opened = p.idle + p.heldStreams.length + p.closed.length ∧
    (∀ s, events.countP (PoolEvent.yields s) =
      events.countP (PoolEvent.returns s) + if s ∈ p.heldStreams then 1 else 0) ∧
    (∀ n s, .yielded n s ∈ events →
      .entered n s.target ∈ events ∧ ∀ t, .entered n t ∈ events → s.target = t) ∧
    (∀ t, ∀ l ∈ p.lanes, l.idle ≠ [] ∨ l.held ≠ [] ∨ l.checkouts ≠ [] → l ∈ (p.track t).lanes) ∧
    (∀ limits isStale outcome t, ∃ later,
      Run (new maxPerTarget) (events ++ [.entered p.nextCheckout t] ++ later)
        (p.checkout limits isStale outcome t).2 ∧
      ∀ s, (p.checkout limits isStale outcome t).1 = .ok s → s.target = t) := by
  obtain ⟨hp, hplaces, ht⟩ := h.keeps
  refine ⟨?cap, hp.partition, ?opened, ?holders, ?own, ?pruned, ?checkout⟩
  case cap =>
    intro t
    rw [← hplaces]
    exact hp.busy_le t
  case opened =>
    have hlength := hp.partition.length_eq
    rw [List.length_map, List.length_append, List.length_append, length_idleStreams, List.length_range] at hlength
    exact hlength.symm
  case holders =>
    intro s
    rw [ht.holders s, hp.count_held_le s]
  case own =>
    intro n s hs
    exact ht.yields_own hs
  case pruned =>
    intro t l hl hused
    exact mem_track t hl (Lane.isUnused_eq_false hused)
  case checkout =>
    intro limits isStale outcome t
    obtain ⟨later, hrun, hyields⟩ := checkout_reaches h hp limits isStale outcome t
    refine ⟨later, hrun, ?_⟩
    intro s hs
    -- the checkout was begun for this target, so it is this target's connection
    have hown := hrun.keeps.2.2.yields_own (hyields s hs)
    exact hown.2 t (List.mem_append_left _ (List.mem_append_right _ (List.mem_singleton_self _)))

/-- A connection is opened, given back, and taken again by a second checkout. -/
theorem account_of_reuse :
    let t : Target := ⟨"http", "localhost", 8080⟩
    let s : PooledStream := ⟨0, t⟩
    let events : List PoolEvent := [.entered 0 t, .yielded 0 s, .returned s, .entered 1 t, .yielded 1 s]
    ∃ p, Run (new 1) events p ∧ p.opened = 1 ∧ p.idle = 0 ∧ p.heldStreams = [s] ∧ p.closed = [] ∧
      (p.streamsTo t).length + p.connectingTo t ≤ 1 ∧
      events.countP (PoolEvent.yields s) = events.countP (PoolEvent.returns s) + 1 := by
  intro t s events
  have h1 : Run (new 1) [.entered 0 t] ⟨1, [⟨t, 0, [], [0], [], [], [], 0⟩], 1, 0, []⟩ := Run.refl.step (.enter t)
  have h2 : Run (new 1) [.entered 0 t] ⟨1, [⟨t, 0, [], [], [0], [], [], 0⟩], 1, 0, []⟩ :=
    h1.step (.beginConnect (t := t) (n := 0) rfl (by decide) rfl)
  have h3 : Run (new 1) (events.take 2) ⟨1, [⟨t, 0, [], [], [], [], [s], 0⟩], 1, 1, []⟩ :=
    h2.step (.connected (t := t) (n := 0) rfl (by decide))
  have h4 : Run (new 1) (events.take 3) ⟨1, [⟨t, 0, [], [], [], [s], [], 1⟩], 1, 1, []⟩ :=
    h3.step (.putBack (s := s) rfl (by decide))
  have h5 : Run (new 1) (events.take 3) ⟨1, [⟨t, 1, [], [], [], [s], [], 0⟩], 1, 1, []⟩ :=
    h4.step (.leave (t := t) rfl (by decide))
  have h6 : Run (new 1) (events.take 4) ⟨1, [⟨t, 0, [], [1], [], [s], [], 0⟩], 2, 1, []⟩ := h5.step (.enter t)
  have h7 : Run (new 1) events ⟨1, [⟨t, 0, [], [], [], [], [s], 0⟩], 2, 1, []⟩ :=
    h6.step (.reuse (t := t) (n := 1) (s := s) rfl (by decide) rfl)
  obtain ⟨hcap, -, -, hholders, -⟩ := account_of_run h7
  exact ⟨_, h7, rfl, rfl, rfl, rfl, hcap t, hholders s⟩

end Pool

end Hypertext
