/-
Substitution: a pattern matches a path exactly if parts for its names turn the pattern into the path. There is only one
choice of parts, and what the match captures is that choice: each name of the pattern once and in order, with the parts
that stand for it.
-/
import Hypertext.Proofs.Route.Reachability

namespace Hypertext

/-! ## Captured values -/

namespace PathParams

variable {name value : String}

/-- A new name is put at the end. -/
theorem insertEntry_of_notMem : ∀ {entries : List (String × String)}, name ∉ entries.map Prod.fst →
    insertEntry name value entries = entries ++ [(name, value)]
  | [], _ => rfl
  | e :: entries, h => by
    rw [List.map_cons, List.mem_cons, not_or] at h
    have hne : ¬ (e.1 == name) = true := fun he => h.1 (eq_of_beq he).symm
    rw [insertEntry, if_neg hne, insertEntry_of_notMem h.2, List.cons_append]

theorem entries_insert_of_notMem {p : PathParams} (h : name ∉ p.entries.map Prod.fst) :
    (p.insert name value).entries = p.entries ++ [(name, value)] :=
  insertEntry_of_notMem h

/-- A name that is there once has its own value. -/
theorem get?_of_mem {p : PathParams} (hnodup : (p.entries.map Prod.fst).Nodup) (h : (name, value) ∈ p.entries) :
    p.get? name = some value := by
  obtain ⟨e, he⟩ := Option.isSome_iff_exists.1
    (List.find?_isSome.2 ⟨_, h, BEq.rfl⟩ : (p.entries.find? (·.1 == name)).isSome)
  have hname : e.1 = name := by simpa using List.find?_some he
  have hsame := List.inj_on_of_nodup_map hnodup (List.mem_of_find?_eq_some he) h hname
  rw [get?, he, hsame]
  rfl

end PathParams

namespace Pattern

open Segment

/-- Parts of a path for each name. -/
abbrev Assignment := String → List String

/-- Segments with the parts for their names put in. -/
def substitute (given : Assignment) : List Segment → List String
  | [] => []
  | .literal text :: segments => text :: substitute given segments
  | .capture name :: segments => given name ++ substitute given segments
  | .wildcard name :: segments => given name ++ substitute given segments

/-- There is one part for each capture, and any number for a wildcard. -/
structure Suits (given : Assignment) (segments : List Segment) : Prop where
  single : ∀ name, .capture name ∈ segments → ∃ part, given name = [part]
  parts : ∀ name ∈ segments.filterMap name?, ∀ part ∈ given name, part ≠ "" ∧ '/' ∉ part.toList

/-- What is captured under these names. -/
def values (given : Assignment) (names : List String) : List (String × String) :=
  names.map fun name => (name, Text.join "/" (given name))

theorem map_fst_values (given : Assignment) (names : List String) : (values given names).map Prod.fst = names := by
  rw [values, List.map_map]
  exact List.map_id names

variable {given given' : Assignment} {s : Segment} {segments : List Segment} {path : List String}

/-! ## Names -/

theorem names_capture (name : String) (segments : List Segment) :
    (Segment.capture name :: segments).filterMap name? = name :: segments.filterMap name? := rfl

theorem names_wildcard (name : String) (segments : List Segment) :
    (Segment.wildcard name :: segments).filterMap name? = name :: segments.filterMap name? := rfl

theorem mem_names_of_capture_mem {name : String} (h : .capture name ∈ segments) : name ∈ segments.filterMap name? :=
  List.mem_filterMap.2 ⟨_, h, rfl⟩

theorem Suits.congr (h : Suits given segments) (heq : ∀ name ∈ segments.filterMap name?, given' name = given name) :
    Suits given' segments where
  single name hmem := by
    rw [heq name (mem_names_of_capture_mem hmem)]
    exact h.single name hmem
  parts name hmem := by
    rw [heq name hmem]
    exact h.parts name hmem

theorem substitute_congr (heq : ∀ name ∈ segments.filterMap name?, given' name = given name) :
    substitute given' segments = substitute given segments := by
  induction segments with
  | nil => rfl
  | cons s segments ih =>
    cases s with
    | literal text => rw [substitute, substitute, ih heq]
    | capture name =>
      rw [names_capture] at heq
      rw [substitute, substitute, heq name List.mem_cons_self, ih fun n hn => heq n (List.mem_cons_of_mem _ hn)]
    | wildcard name =>
      rw [names_wildcard] at heq
      rw [substitute, substitute, heq name List.mem_cons_self, ih fun n hn => heq n (List.mem_cons_of_mem _ hn)]

theorem Suits.tail (h : Suits given (s :: segments)) : Suits given segments where
  single name hmem := h.single name (List.mem_cons_of_mem _ hmem)
  parts name hmem := by
    obtain ⟨s', hs', hname⟩ := List.mem_filterMap.1 hmem
    exact h.parts name (List.mem_filterMap.2 ⟨s', List.mem_cons_of_mem _ hs', hname⟩)

/-! ## Matching -/

/-- Segments match what they become by substitution, and capture what was put in. -/
theorem matchSegments_substitute :
    ∀ {segments : List Segment} {params : PathParams}, WildcardLast segments → (segments.filterMap name?).Nodup →
      (∀ name ∈ segments.filterMap name?, name ∉ params.entries.map Prod.fst) → Suits given segments →
      matchSegments segments (substitute given segments) params =
        some ⟨params.entries ++ values given (segments.filterMap name?)⟩
  | [], params, _, _, _, _ => by simp [substitute, matchSegments, values]
  | .literal text :: segments, params, hw, hnodup, hfresh, hsuits => by
    rw [substitute, matchSegments, if_pos BEq.rfl]
    exact matchSegments_substitute hw.2 hnodup hfresh hsuits.tail
  | .wildcard name :: segments, params, hw, hnodup, hfresh, hsuits => by
    obtain rfl := hw.1 rfl
    have hnew := hfresh name List.mem_cons_self
    have hmatch : matchSegments [.wildcard name] (given name) params =
        some (params.insert name (Text.join "/" (given name))) := by
      cases given name <;> rfl
    rw [substitute, substitute, List.append_nil, hmatch]
    exact congrArg some (congrArg PathParams.mk (PathParams.entries_insert_of_notMem hnew))
  | .capture name :: segments, params, hw, hnodup, hfresh, hsuits => by
    rw [names_capture] at hnodup hfresh ⊢
    obtain ⟨hnotMem, hnodup⟩ := List.nodup_cons.1 hnodup
    obtain ⟨part, hpart⟩ := hsuits.single name List.mem_cons_self
    have hentries : (params.insert name part).entries = params.entries ++ [(name, part)] :=
      PathParams.entries_insert_of_notMem (hfresh name List.mem_cons_self)
    have hlater : ∀ n ∈ segments.filterMap name?, n ∉ (params.insert name part).entries.map Prod.fst := by
      intro n hn hmem
      rw [hentries, List.map_append, List.mem_append] at hmem
      rcases hmem with hmem | hmem
      · exact hfresh n (List.mem_cons_of_mem _ hn) hmem
      · obtain rfl : n = name := by simpa using hmem
        exact hnotMem hn
    have hjoin : Text.join "/" (given name) = part := by
      rw [hpart]
      rfl
    rw [substitute, hpart, List.singleton_append, matchSegments,
      matchSegments_substitute hw.2 hnodup hlater hsuits.tail, hentries, List.append_assoc, values, values, List.map_cons,
      hjoin, List.singleton_append]

/-- For a path that is matched there are parts that turn the segments into it. -/
theorem exists_of_matchSegments :
    ∀ {segments : List Segment} {path : List String} {params found : PathParams}, WildcardLast segments →
      (segments.filterMap name?).Nodup → (∀ part ∈ path, part ≠ "" ∧ '/' ∉ part.toList) →
      matchSegments segments path params = some found → ∃ given, Suits given segments ∧ substitute given segments = path
  | [], [], _, _, _, _, _, _ => ⟨fun _ => [], ⟨by simp, by simp⟩, rfl⟩
  | [], _ :: _, _, _, _, _, _, h => by cases h
  | .wildcard name :: segments, path, _, _, hw, _, hparts, _ => by
    obtain rfl := hw.1 rfl
    refine ⟨fun _ => path, ⟨by simp, fun _ _ => hparts⟩, ?_⟩
    rw [substitute, substitute, List.append_nil]
  | .literal text :: segments, [], _, _, _, _, _, h => by cases h
  | .literal text :: segments, part :: path, _, _, hw, hnodup, hparts, h => by
    simp only [matchSegments, beq_iff_eq] at h
    split_ifs at h with hpart
    obtain ⟨given, hsuits, rfl⟩ := exists_of_matchSegments hw.2 hnodup (fun p hp => hparts p (List.mem_cons_of_mem _ hp)) h
    refine ⟨given, ⟨fun name hmem => hsuits.single name (by simpa using hmem), hsuits.parts⟩, ?_⟩
    rw [substitute, hpart]
  | .capture name :: segments, [], _, _, _, _, _, h => by cases h
  | .capture name :: segments, part :: path, _, _, hw, hnodup, hparts, h => by
    rw [matchSegments] at h
    rw [names_capture] at hnodup
    obtain ⟨hnotMem, hnodup⟩ := List.nodup_cons.1 hnodup
    obtain ⟨given, hsuits, hsubst⟩ :=
      exists_of_matchSegments hw.2 hnodup (fun p hp => hparts p (List.mem_cons_of_mem _ hp)) h
    -- the name of the capture is none of those that follow, so that its part can be chosen
    have heq : ∀ n ∈ segments.filterMap name?, Function.update given name [part] n = given n := fun n hn =>
      Function.update_of_ne (fun he : n = name => hnotMem (he ▸ hn)) _ _
    have hlater := hsuits.congr heq
    refine ⟨Function.update given name [part], ⟨fun n hmem => ?_, fun n hmem p hp => ?_⟩, ?_⟩
    · rcases List.mem_cons.1 hmem with hname | hmem
      · cases hname
        exact ⟨part, Function.update_self ..⟩
      · exact hlater.single n hmem
    · rw [names_capture] at hmem
      rcases List.mem_cons.1 hmem with rfl | hmem
      · rw [Function.update_self, List.mem_singleton] at hp
        exact hp ▸ hparts part List.mem_cons_self
      · exact hlater.parts n hmem p hp
    · rw [substitute, Function.update_self, substitute_congr heq, hsubst, List.singleton_append]

/-- Only one choice of parts turns segments into a path. -/
theorem substitute_injective :
    ∀ {segments : List Segment}, WildcardLast segments → Suits given segments → Suits given' segments →
      substitute given segments = substitute given' segments →
      ∀ name ∈ segments.filterMap name?, given name = given' name
  | [], _, _, _, _, _, hname => by cases hname
  | .literal text :: segments, hw, hsuits, hsuits', h, name, hname => by
    rw [substitute, substitute, List.cons.injEq] at h
    exact substitute_injective hw.2 hsuits.tail hsuits'.tail h.2 name hname
  | .wildcard _ :: segments, hw, _, _, h, name, hname => by
    obtain rfl := hw.1 rfl
    rw [substitute, substitute, substitute, substitute, List.append_nil, List.append_nil] at h
    rwa [List.mem_singleton.1 hname]
  | .capture first :: segments, hw, hsuits, hsuits', h, name, hname => by
    obtain ⟨part, hpart⟩ := hsuits.single first List.mem_cons_self
    obtain ⟨part', hpart'⟩ := hsuits'.single first List.mem_cons_self
    rw [substitute, substitute, hpart, hpart', List.singleton_append, List.singleton_append, List.cons.injEq] at h
    rw [names_capture] at hname
    rcases List.mem_cons.1 hname with rfl | hname
    · rw [hpart, hpart', h.1]
    · exact substitute_injective hw.2 hsuits.tail hsuits'.tail h.2 name hname

/-- A pattern matches a path exactly if there are parts for its names that turn it into the path, and then it captures
these parts under its names, in order. No other parts do, and those that the captured values are split into do. -/
theorem match_iff_substitute {text : String} {p : Pattern} (hp : parse text = .ok p) (path : String) :
    (∀ params, p.match? (splitPath path) = some params ↔
      ∃ given, Suits given p.segments ∧ substitute given p.segments = splitPath path ∧
        params.entries = values given p.names) ∧
    (∀ given given', Suits given p.segments → Suits given' p.segments → substitute given p.segments = splitPath path →
      substitute given' p.segments = splitPath path → ∀ name ∈ p.names, given name = given' name) ∧
    ∀ params, p.match? (splitPath path) = some params →
      Suits (fun name => splitPath ((params.get? name).getD "")) p.segments ∧
      substitute (fun name => splitPath ((params.get? name).getD "")) p.segments = splitPath path := by
  have hw := parse_wildcardLast hp
  have hnodup : p.names.Nodup := parse_names_nodup hp
  have hmatch : ∀ given, Suits given p.segments → substitute given p.segments = splitPath path →
      p.match? (splitPath path) = some ⟨values given p.names⟩ := by
    intro given hsuits hsubst
    rw [match?, ← hsubst]
    exact matchSegments_substitute hw hnodup (by simp [PathParams.empty]) hsuits
  have hgiven : ∀ params, p.match? (splitPath path) = some params →
      ∃ given, Suits given p.segments ∧ substitute given p.segments = splitPath path ∧
        params.entries = values given p.names := by
    intro params h
    obtain ⟨given, hsuits, hsubst⟩ := exists_of_matchSegments hw hnodup (fun part => mem_splitPath) h
    have hsame := (hmatch given hsuits hsubst).symm.trans h
    exact ⟨given, hsuits, hsubst, by cases hsame; rfl⟩
  refine ⟨fun params => ⟨hgiven params, ?_⟩, fun given given' hsuits hsuits' h h' => ?_, fun params h => ?_⟩
  · rintro ⟨given, hsuits, hsubst, hentries⟩
    rw [hmatch given hsuits hsubst, ← hentries]
  · exact substitute_injective hw hsuits hsuits' (h.trans h'.symm)
  · obtain ⟨given, hsuits, hsubst, hentries⟩ := hgiven params h
    have heq : ∀ name ∈ p.names, splitPath ((params.get? name).getD "") = given name := by
      intro name hname
      have hmem : (name, Text.join "/" (given name)) ∈ params.entries := by
        rw [hentries]
        exact List.mem_map.2 ⟨name, hname, rfl⟩
      have hkeys : (params.entries.map Prod.fst).Nodup := by rwa [hentries, map_fst_values]
      rw [PathParams.get?_of_mem hkeys hmem]
      exact splitPath_join (hsuits.parts name hname)
    exact ⟨hsuits.congr heq, (substitute_congr heq).trans hsubst⟩

/-- A capture takes one part of the path and the wildcard after it the two that are left. -/
theorem match_of_capture_and_wildcard :
    let p : Pattern := ⟨"/users/:id/*", [.literal "users", .capture "id", .wildcard "wildcard"]⟩
    let given : Assignment := fun name => if name = "id" then ["007"] else ["a%20b", "c"]
    parse "/users/:id/*" = .ok p ∧ Suits given p.segments ∧
      substitute given p.segments = splitPath "//users/007/a%20b//c/" ∧
      p.match? (splitPath "//users/007/a%20b//c/") = some ⟨[("id", "007"), ("wildcard", "a%20b/c")]⟩ := by
  intro p given
  have hp : parse "/users/:id/*" = .ok p := by rfl
  have hsuits : Suits given p.segments := by
    refine ⟨fun name hmem => ?_, fun name hmem => ?_⟩
    · obtain rfl : name = "id" := by simpa [p] using hmem
      exact ⟨"007", rfl⟩
    · have hname : name = "id" ∨ name = "wildcard" := by simpa [p, name?, eq_comm] using hmem
      rcases hname with rfl | rfl <;> simp [given]
  have hsubst : substitute given p.segments = splitPath "//users/007/a%20b//c/" := by rfl
  exact ⟨hp, hsuits, hsubst, ((match_iff_substitute hp _).1 _).2 ⟨given, hsuits, hsubst, rfl⟩⟩

end Pattern

end Hypertext
