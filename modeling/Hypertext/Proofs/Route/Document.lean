/-
The API document: which operations it has. Each of them is that of a route, and every route that can be described has
one under its template and its verb. But patterns that are told apart may have one template: a name captures one part of
a path or all that are left, and a literal may stand in braces. Of routes of one method with one template only the one
whose text comes last is described; so the operations are as many as the routes exactly if there are no such routes.
-/
import Hypertext.Proofs.Json.Members
import Hypertext.Proofs.Route.Reachability
import Hypertext.Proofs.Route.Sealing

namespace Hypertext

/-! ## Templates -/

namespace Segment

/-- A segment as a template has it: names are in braces. -/
def written : Segment → String
  | .literal text => text
  | .capture name => "\x7b" ++ name ++ "\x7d"
  | .wildcard name => "\x7b" ++ name ++ "\x7d"

end Segment

namespace Pattern

open Segment

/-- What is read from a part of a path is written as one. -/
theorem written_of_readSegment {text : String} {s : Segment} (h : readSegment text = .ok s)
    (htext : text ≠ "" ∧ '/' ∉ text.toList) : s.written ≠ "" ∧ '/' ∉ s.written.toList := by
  have hbraces : ∀ name : String, '/' ∉ name.toList →
      "\x7b" ++ name ++ "\x7d" ≠ "" ∧ '/' ∉ ("\x7b" ++ name ++ "\x7d").toList := by
    intro name hname
    refine ⟨fun hempty => ?_, by simpa [String.toList_append] using hname⟩
    have hlength := congrArg String.length hempty
    simp [String.length_append] at hlength
  unfold readSegment at h
  split at h
  · cases h
  · next name heq =>
    cases h
    exact hbraces _ fun hmem => htext.2 (by rw [heq]; simpa using hmem)
  · cases h
    exact hbraces _ (by decide)
  · next name heq =>
    cases h
    exact hbraces _ fun hmem => htext.2 (by rw [heq]; simpa using hmem)
  · cases h
    exact htext

theorem exists_part_of_mem :
    ∀ {parts seen : List String} {segments : List Segment}, readSegments seen parts = .ok segments →
      ∀ s ∈ segments, ∃ part ∈ parts, readSegment part = .ok s
  | [], _, _, h, s, hs => by
    cases h
    cases hs
  | part :: parts, seen, segments, h, s, hs => by
    obtain ⟨first, later, hfirst, -, hlater, -, rfl⟩ := readSegments_cons_ok h
    rcases List.mem_cons.1 hs with rfl | hs
    · exact ⟨part, List.mem_cons_self, hfirst⟩
    · obtain ⟨part', hpart, hread⟩ := exists_part_of_mem hlater s hs
      exact ⟨part', List.mem_cons_of_mem _ hpart, hread⟩

theorem written_of_parse {text : String} {p : Pattern} (hp : parse text = .ok p) :
    ∀ part ∈ p.segments.map written, part ≠ "" ∧ '/' ∉ part.toList := by
  refine List.forall_mem_map.2 fun s hs => ?_
  obtain ⟨part, hpart, hread⟩ := exists_part_of_mem (parse_eq_ok_iff.1 hp).2.1 s hs
  exact written_of_readSegment hread (mem_splitPath hpart)

end Pattern

namespace ApiDocument

open Segment

theorem join_slashes {parts : List String} (h : parts ≠ []) :
    String.join (parts.map ("/" ++ ·)) = "/" ++ Text.join "/" parts := by
  induction parts with
  | nil => exact absurd rfl h
  | cons part parts ih =>
    cases parts with
    | nil => simp [Text.join]
    | cons next parts =>
      rw [List.map_cons, String.join_cons, ih (by simp), Text.join, Text.join, String.intercalate_cons_cons,
        String.append_assoc, String.append_assoc]

/-- A template is the path of its written segments. -/
theorem template_eq_pathOf (p : Pattern) : template p = pathOf (p.segments.map written) := by
  cases hp : p.segments with
  | nil =>
    rw [template, hp]
    rfl
  | cons s segments =>
    rw [pathOf, ← join_slashes (by simp), template, hp, List.map_map, if_neg (by simp)]
    refine congrArg String.join (List.map_congr_left fun s _ => ?_)
    cases s <;> simp [written, ← String.append_assoc]

/-- Patterns have one template exactly if their segments are written alike. -/
theorem template_eq_iff {text text' : String} {p q : Pattern} (hp : Pattern.parse text = .ok p)
    (hq : Pattern.parse text' = .ok q) :
    template p = template q ↔ p.segments.map written = q.segments.map written := by
  rw [template_eq_pathOf, template_eq_pathOf]
  constructor
  · intro h
    rw [← splitPath_pathOf (Pattern.written_of_parse hp), h, splitPath_pathOf (Pattern.written_of_parse hq)]
  · intro h
    rw [h]

/-- A verb is the name of its method in small letters. -/
theorem ofText_of_verb? {m : Method} {verb : String} (h : verb? m = some verb) :
    Method.ofText (String.ofList (verb.toList.map Char.toUpper)) = m := by
  cases m <;> cases h <;> decide

theorem verb?_injective {m m' : Method} {verb : String} (h : verb? m = some verb) (h' : verb? m' = some verb) :
    m = m' := (ofText_of_verb? h).symm.trans (ofText_of_verb? h')

/-! ## Operations -/

/-- What a document says of a verb under a path template. -/
structure Operation where
  template : String
  verb : String
  content : Json

/-- Where an operation stands. -/
def Operation.place (o : Operation) : String × String := (o.template, o.verb)

/-- The operations under one template. -/
def itemOperations (path : String) : Json → List Operation
  | .object members => members.map fun m => ⟨path, m.1, m.2⟩
  | _ => []

/-- The operations of a document, template by template. -/
def operations (doc : Json) : List Operation :=
  match doc.get? "paths" with
  | some (.object paths) => paths.flatMap fun e => itemOperations e.1 e.2
  | _ => []

/-- The names of the parameters that an operation lists. -/
def parameterNames (content : Json) : List String :=
  (((content.get? "parameters").bind Json.items?).getD []).filterMap fun p => (p.get? "name").bind Json.string?

theorem name_parameter (name : String) : ((parameter name).get? "name").bind Json.string? = some name := by
  rw [parameter, Json.get?_ofMembers]
  rfl

/-- An operation lists the names of its pattern, in order. -/
theorem parameterNames_operation (p : Pattern) : parameterNames (operation p) = p.names := by
  have hread : (p.names.map parameter).filterMap (fun q => (q.get? "name").bind Json.string?) = p.names := by
    rw [List.filterMap_map]
    exact (List.filterMap_congr fun name _ => name_parameter name).trans List.filterMap_some
  rw [operation, parameterNames]
  split_ifs with hempty
  · rw [Json.get?_ofMembers, List.isEmpty_iff.1 hempty]
    rfl
  · rw [Json.get?_ofMembers]
    exact hread

variable {α : Type} {routes : List (Route α)} {r : Route α} {paths : List (String × Json)} {path verb : String}

/-- The operation of a route, if its method can be described. -/
def operationOf? (r : Route α) : Option Operation :=
  (verb? r.method).map fun verb => ⟨template r.pattern, verb, operation r.pattern⟩

/-- What stands under a template and a verb. -/
def content? (paths : List (String × Json)) (path verb : String) : Option Json :=
  ((Json.object paths).get? path).bind (·.get? verb)

/-- Templates and verbs stand in order, each once. -/
structure Tidy (paths : List (String × Json)) : Prop where
  ordered : Json.Ordered paths
  items : ∀ e ∈ paths, ∃ members, e.2 = .object members ∧ Json.Ordered members

theorem tidy_nil : Tidy [] := ⟨List.Pairwise.nil, by simp⟩

/-- A route that can be described is put among the operations of its template. -/
theorem Tidy.addOperation_eq (h : Tidy paths) (hverb : verb? r.method = some verb) :
    ∃ members, Json.Ordered members ∧
      (∀ other, content? paths (template r.pattern) other = (Json.object members).get? other) ∧
      addOperation paths r =
        Json.insert (template r.pattern) (.object (Json.insert verb (operation r.pattern) members)) paths := by
  rw [addOperation, hverb]
  cases hitem : (Json.object paths).get? (template r.pattern) with
  | none => exact ⟨[], List.Pairwise.nil, fun other => by rw [content?, hitem]; rfl, by simp [hitem]⟩
  | some item =>
    obtain ⟨members, rfl, hmembers⟩ := h.items _ (h.ordered.mem_iff.2 hitem)
    exact ⟨members, hmembers, fun other => by rw [content?, hitem]; rfl, by simp [hitem]⟩

/-- A route that is added puts its operation in its place, and leaves all others alone. -/
theorem Tidy.addOperation (h : Tidy paths) (r : Route α) :
    Tidy (addOperation paths r) ∧ ∀ path verb, content? (addOperation paths r) path verb =
      if (operationOf? r).map Operation.place = some (path, verb) then some (operation r.pattern)
      else content? paths path verb := by
  cases hverb : verb? r.method with
  | none =>
    have hsame : ApiDocument.addOperation paths r = paths := by rw [ApiDocument.addOperation, hverb]
    rw [hsame, operationOf?, hverb]
    exact ⟨h, fun path verb => by simp⟩
  | some own =>
    obtain ⟨members, hmembers, hcontent, hadd⟩ := h.addOperation_eq hverb
    rw [hadd, operationOf?, hverb]
    refine ⟨⟨h.ordered.insert _ _, fun e he => ?_⟩, fun path verb => ?_⟩
    · rcases Json.mem_insert he with rfl | he
      · exact ⟨_, rfl, hmembers.insert _ _⟩
      · exact h.items e he
    · by_cases hpath : path = template r.pattern
      · subst hpath
        rw [content?, Json.get?_insert_self, Option.bind_some]
        by_cases hown : verb = own
        · subst hown
          simp [Json.get?_insert_self, Operation.place]
        · rw [Json.get?_insert_of_ne _ _ hown, hcontent]
          simp [Operation.place, Ne.symm hown]
      · rw [content?, Json.get?_insert_of_ne _ _ hpath]
        simp [Operation.place, Ne.symm hpath, content?]

theorem tidy_foldl (h : Tidy paths) (routes : List (Route α)) : Tidy (routes.foldl addOperation paths) := by
  induction routes generalizing paths with
  | nil => exact h
  | cons r routes ih => exact ih (h.addOperation r).1

/-- What stands in a place after routes have been added is the operation of the last one that belongs there. -/
theorem content?_foldl (h : Tidy paths) (routes : List (Route α)) :
    content? (routes.foldl addOperation paths) path verb =
      ((routes.reverse.find? fun r => (operationOf? r).map Operation.place == some (path, verb)).map
        fun r => operation r.pattern).or (content? paths path verb) := by
  induction routes generalizing paths with
  | nil => rfl
  | cons r routes ih =>
    rw [List.foldl_cons, ih (h.addOperation r).1, (h.addOperation r).2, List.reverse_cons, List.find?_append]
    cases routes.reverse.find? fun r => (operationOf? r).map Operation.place == some (path, verb) with
    | some r' => rfl
    | none => by_cases hr : (operationOf? r).map Operation.place = some (path, verb) <;> simp [hr]

/-! ## Operations of a document -/

theorem mem_itemOperations {members : List (String × Json)} (h : Json.Ordered members) {o : Operation} :
    o ∈ itemOperations path (.object members) ↔ o.template = path ∧ (Json.object members).get? o.verb = some o.content := by
  rw [itemOperations, List.mem_map]
  constructor
  · rintro ⟨m, hm, rfl⟩
    exact ⟨rfl, h.mem_iff.1 hm⟩
  · rintro ⟨rfl, hget⟩
    exact ⟨_, h.mem_iff.2 hget, rfl⟩

theorem Tidy.mem_operations_iff (h : Tidy paths) {o : Operation} :
    (o ∈ paths.flatMap fun e => itemOperations e.1 e.2) ↔ content? paths o.template o.verb = some o.content := by
  rw [List.mem_flatMap, content?, Option.bind_eq_some_iff]
  constructor
  · rintro ⟨⟨path, item⟩, he, ho⟩
    obtain ⟨members, rfl, hmembers⟩ := h.items _ he
    obtain ⟨rfl, hget⟩ := (mem_itemOperations hmembers).1 ho
    exact ⟨_, h.ordered.mem_iff.1 he, hget⟩
  · rintro ⟨item, hitem, hget⟩
    have he := h.ordered.mem_iff.2 hitem
    obtain ⟨members, rfl, hmembers⟩ := h.items _ he
    exact ⟨_, he, (mem_itemOperations hmembers).2 ⟨rfl, hget⟩⟩

/-- No two operations stand in one place. -/
theorem Tidy.nodup_places (h : Tidy paths) :
    ((paths.flatMap fun e => itemOperations e.1 e.2).map Operation.place).Nodup := by
  refine List.pairwise_map.2 (List.pairwise_flatMap.2 ⟨fun e he => ?_, h.ordered.imp_of_mem fun {e e'} he he' hlt => ?_⟩)
  · obtain ⟨members, hitem, hmembers⟩ := h.items e he
    rw [hitem]
    refine List.pairwise_map.2 (hmembers.imp fun hlt heq => ?_)
    exact absurd (congrArg Prod.snd heq) (ne_of_lt hlt)
  · obtain ⟨members, hitem, hmembers⟩ := h.items e he
    obtain ⟨members', hitem', hmembers'⟩ := h.items e' he'
    rw [hitem, hitem']
    intro o ho o' ho' heq
    rw [mem_itemOperations hmembers] at ho
    rw [mem_itemOperations hmembers'] at ho'
    have hpath : o.template = o'.template := congrArg Prod.fst heq
    rw [ho.1, ho'.1] at hpath
    exact absurd hpath (ne_of_lt hlt)

/-- The routes that the document at a path lists: all but its own. -/
def listed (path : String) (routes : List (Route α)) : List (Route α) :=
  routes.filter fun r => !(r.method == .get && r.pattern.raw == path)

theorem operations_describe (title version path : String) (routes : List (Route α)) :
    operations (describe title version path routes) =
      ((((listed path routes).mergeSort before).foldl addOperation []).flatMap fun e => itemOperations e.1 e.2) := by
  rw [operations, describe, Json.get?_ofMembers]
  rfl

/-- An operation of a document is that of the last of the routes that belong in its place. -/
theorem mem_operations_describe_iff {title version : String} {o : Operation} :
    o ∈ operations (describe title version path routes) ↔
      (((listed path routes).mergeSort before).reverse.find? fun r =>
        (operationOf? r).map Operation.place == some o.place).map (fun r => operation r.pattern) = some o.content := by
  rw [operations_describe, (tidy_foldl tidy_nil _).mem_operations_iff, content?_foldl tidy_nil]
  have hnil : content? [] o.template o.verb = none := rfl
  rw [hnil, Option.or_none]
  rfl

/-- Two operations of routes stand in one place exactly if the routes are of one method and written alike. -/
theorem place_eq_iff {s : Route α} {o o' : Operation} (ho : operationOf? r = some o) (ho' : operationOf? s = some o')
    (hr : Pattern.parse r.pattern.raw = .ok r.pattern) (hs : Pattern.parse s.pattern.raw = .ok s.pattern) :
    o.place = o'.place ↔ r.method = s.method ∧ r.pattern.segments.map written = s.pattern.segments.map written := by
  obtain ⟨verb, hverb, rfl⟩ := Option.map_eq_some_iff.1 ho
  obtain ⟨verb', hverb', rfl⟩ := Option.map_eq_some_iff.1 ho'
  rw [Operation.place, Operation.place, Prod.mk.injEq, template_eq_iff hr hs, and_comm]
  refine and_congr_left fun _ => ⟨fun hv => verb?_injective (hverb.trans (congrArg some hv)) hverb', fun hm => ?_⟩
  rw [hm, hverb'] at hverb
  exact (Option.some.inj hverb).symm

theorem raw_le_of_before {s : Route α} (h : before s r = true) : s.pattern.raw ≤ r.pattern.raw := by
  rw [before_iff, Prod.Lex.le_iff] at h
  rcases h with hlt | ⟨heq, -⟩
  · exact le_of_lt hlt
  · exact le_of_eq heq

/-- An operation is that of a route, and no route in its place has a later text. -/
theorem exists_route_of_mem {title version : String} {o : Operation}
    (ho : o ∈ operations (describe title version path routes)) :
    ∃ r ∈ listed path routes, operationOf? r = some o ∧
      ∀ s ∈ listed path routes, (operationOf? s).map Operation.place = some o.place → s.pattern.raw ≤ r.pattern.raw := by
  obtain ⟨r, hfind, hcontent⟩ := Option.map_eq_some_iff.1 (mem_operations_describe_iff.1 ho)
  obtain ⟨hplace, later, earlier, hsplit, hlater⟩ := List.find?_eq_some_iff_append.1 hfind
  have hmem : ∀ s, s ∈ listed path routes ↔ s ∈ later ++ r :: earlier := fun s => by
    rw [← hsplit, List.mem_reverse, List.mem_mergeSort]
  have hsorted : (later ++ r :: earlier).Pairwise fun s s' => before s' s = true := by
    rw [← hsplit]
    exact List.pairwise_reverse.2 (List.pairwise_mergeSort before_trans before_total _)
  refine ⟨r, (hmem r).2 (by simp), ?_, fun s hs hs' => ?_⟩
  · obtain ⟨o', ho', hplace⟩ := Option.map_eq_some_iff.1 (beq_iff_eq.1 hplace)
    obtain ⟨verb, hverb, rfl⟩ := Option.map_eq_some_iff.1 ho'
    obtain ⟨template, verb', content⟩ := o
    cases hplace
    cases hcontent
    exact ho'
  · rcases List.mem_append.1 ((hmem s).1 hs) with hlate | hrest
    · exact absurd (beq_iff_eq.2 hs') (by simpa using hlater s hlate)
    · rcases List.mem_cons.1 hrest with rfl | hearly
      · exact le_rfl
      · exact raw_le_of_before ((List.pairwise_cons.1 (List.pairwise_append.1 hsorted).2.1).1 s hearly)

/-- A route has an operation in its place. -/
theorem exists_operation_of_mem (title version : String) (hr : r ∈ listed path routes) {o : Operation}
    (ho : operationOf? r = some o) : ∃ o' ∈ operations (describe title version path routes), o'.place = o.place := by
  obtain ⟨last, hlast⟩ : ∃ last, ((listed path routes).mergeSort before).reverse.find? (fun r =>
      (operationOf? r).map Operation.place == some o.place) = some last := by
    rw [← Option.isSome_iff_exists, List.find?_isSome]
    exact ⟨r, by rwa [List.mem_reverse, List.mem_mergeSort], by simp [ho]⟩
  refine ⟨⟨o.template, o.verb, operation last.pattern⟩, mem_operations_describe_iff.2 ?_, rfl⟩
  exact (congrArg (Option.map fun r => operation r.pattern) hlast)

/-- Of the routes that can be described, no two of one method are written alike. -/
def WrittenApart (routes : List (Route α)) : Prop :=
  ∀ r ∈ routes, ∀ s ∈ routes, (verb? r.method).isSome → r.method = s.method →
    r.pattern.segments.map written = s.pattern.segments.map written → r = s

theorem writtenApart_iff (hnodup : routes.Nodup) (hparsed : ∀ r ∈ routes, Pattern.parse r.pattern.raw = .ok r.pattern) :
    WrittenApart routes ↔ ((routes.filterMap operationOf?).map Operation.place).Nodup := by
  rw [List.Nodup, List.pairwise_map, List.pairwise_filterMap]
  constructor
  · intro h
    refine hnodup.imp_of_mem fun {r s} hr hs hne o ho o' ho' heq => hne ?_
    obtain ⟨hm, hwritten⟩ := (place_eq_iff ho ho' (hparsed r hr) (hparsed s hs)).1 heq
    obtain ⟨verb, hverb, -⟩ := Option.map_eq_some_iff.1 ho
    exact h r hr s hs (by rw [hverb]; rfl) hm hwritten
  · intro h r hr s hs hsome hm hwritten
    obtain ⟨verb, hverb⟩ := Option.isSome_iff_exists.1 hsome
    have ho : operationOf? r = some ⟨template r.pattern, verb, operation r.pattern⟩ := by rw [operationOf?, hverb]; rfl
    have ho' : operationOf? s = some ⟨template s.pattern, verb, operation s.pattern⟩ := by
      rw [operationOf?, ← hm, hverb]
      rfl
    by_contra hne
    have hsymm : Std.Symm fun r s : Route α =>
        ∀ o, operationOf? r = some o → ∀ o', operationOf? s = some o' → o.place ≠ o'.place :=
      ⟨fun r s h o ho o' ho' heq => h o' ho' o ho heq.symm⟩
    exact h.forall hr hs hne _ ho _ ho' ((place_eq_iff ho ho' (hparsed r hr) (hparsed s hs)).2 ⟨hm, hwritten⟩)

theorem nodup_operations (title version path : String) (routes : List (Route α)) :
    ((operations (describe title version path routes)).map Operation.place).Nodup := by
  rw [operations_describe]
  exact (tidy_foldl tidy_nil _).nodup_places

/-- The operations are those of the routes, one for each, exactly if no two of them stand in one place. -/
theorem operations_perm_iff (title version path : String) (routes : List (Route α)) :
    (operations (describe title version path routes)).Perm ((listed path routes).filterMap operationOf?) ↔
      (((listed path routes).filterMap operationOf?).map Operation.place).Nodup := by
  have hdistinct := nodup_operations title version path routes
  refine ⟨fun hperm => (hperm.map _).nodup_iff.1 hdistinct, fun hplaces => ?_⟩
  refine (List.perm_ext_iff_of_nodup (List.Nodup.of_map _ hdistinct) (List.Nodup.of_map _ hplaces)).2 fun o => ⟨?_, ?_⟩
  · intro ho
    obtain ⟨r, hr, hor, -⟩ := exists_route_of_mem ho
    exact List.mem_filterMap.2 ⟨r, hr, hor⟩
  · intro ho
    obtain ⟨r, hr, hor⟩ := List.mem_filterMap.1 ho
    obtain ⟨o', ho', hplace⟩ := exists_operation_of_mem title version hr hor
    obtain ⟨s, hs, hos, -⟩ := exists_route_of_mem ho'
    -- the operation that stands in the place of `o` is the only one there
    obtain rfl : o' = o := List.inj_on_of_nodup_map hplaces (List.mem_filterMap.2 ⟨s, hs, hos⟩) ho hplace
    exact ho'

/-- What a document says of routes. Each operation is that of a route and lists the names of its pattern; and each route
has an operation in its place, which is that of the route there whose text comes last. The operations are those of the
routes, one for each, exactly if no two routes of a method are written alike. -/
structure Describes (doc : Json) (routes : List (Route α)) : Prop where
  distinct : ((operations doc).map Operation.place).Nodup
  complete : ∀ r ∈ routes, ∀ o, operationOf? r = some o → ∃ o' ∈ operations doc, o'.place = o.place
  sound : ∀ o ∈ operations doc, ∃ r ∈ routes, operationOf? r = some o ∧ parameterNames o.content = r.pattern.names ∧
    ∀ s ∈ routes, (operationOf? s).map Operation.place = some o.place → s.pattern.raw ≤ r.pattern.raw
  faithful : (operations doc).Perm (routes.filterMap operationOf?) ↔ WrittenApart routes

theorem describes (title version path : String) {routes : List (Route α)} (hapart : routes.Pairwise Route.Apart)
    (hparsed : ∀ r ∈ routes, Pattern.parse r.pattern.raw = .ok r.pattern) :
    Describes (describe title version path routes) (listed path routes) := by
  have hparsed : ∀ r ∈ listed path routes, Pattern.parse r.pattern.raw = .ok r.pattern :=
    fun r hr => hparsed r (List.mem_filter.1 hr).1
  have hnodup : (listed path routes).Nodup := by
    refine List.Pairwise.imp ?_ (hapart.filter _)
    rintro r s hrs rfl
    exact Route.not_apart_self r hrs
  constructor
  case distinct => exact nodup_operations title version path routes
  case complete => exact fun r hr o ho => exists_operation_of_mem title version hr ho
  case sound =>
    intro o ho
    obtain ⟨r, hr, hor, hlast⟩ := exists_route_of_mem ho
    obtain ⟨verb, -, rfl⟩ := Option.map_eq_some_iff.1 hor
    exact ⟨r, hr, hor, parameterNames_operation r.pattern, hlast⟩
  case faithful => exact (operations_perm_iff title version path routes).trans (writtenApart_iff hnodup hparsed).symm

end ApiDocument

/-! ## Main result -/

namespace Builder

open ApiDocument

/-- Of a router all of whose calls have succeeded, each document that was promised is served once the router is sealed,
and describes the routes of the table, all but its own. -/
theorem operations_of_sealed {calls : List Call} {t : Table} (h : Accepted calls empty) (ht : SealsTo calls t)
    {path title version : String} (hdoc : .serveDocument path title version ∈ calls) :
    ∃ doc : Json, t.Publishes path (Bytes.ofText doc.text) ∧ Describes doc (listed path t.routes) :=
  ⟨_, ht.publishes h hdoc, describes title version path ht.searchable.apart ht.parsed⟩

/-- Two routes with one template and different verbs are both described. -/
theorem operations_of_sealed_of_verbs :
    let calls : List Call := [.register .get "/users/:id" fun _ => ⟨0, .panicked none⟩, .serveDocument "/api" "A" "1",
      .register .post "/users/:id/" fun _ => ⟨1, .panicked none⟩]
    let t := (performAll calls empty).table
    Accepted calls empty ∧ SealsTo calls t ∧ ∃ doc : Json, t.Publishes "/api" (Bytes.ofText doc.text) ∧
      (operations doc).Perm
        [⟨"/users/{id}", "get", operation ⟨"/users/:id", [.literal "users", .capture "id"]⟩⟩,
          ⟨"/users/{id}", "post", operation ⟨"/users/:id/", [.literal "users", .capture "id"]⟩⟩] := by
  intro calls t
  have haccepted : Accepted calls empty := ⟨rfl, rfl, rfl, trivial⟩
  have hseals : SealsTo calls t := ⟨_, List.Perm.refl _, rfl⟩
  have hdoc : .serveDocument "/api" "A" "1" ∈ calls := List.mem_cons_of_mem _ List.mem_cons_self
  obtain ⟨doc, hdoc, hdescribes⟩ := operations_of_sealed haccepted hseals hdoc
  have hlisted : listed "/api" t.routes =
      [⟨.get, ⟨"/users/:id", [.literal "users", .capture "id"]⟩, fun _ => ⟨0, .panicked none⟩⟩,
        ⟨.post, ⟨"/users/:id/", [.literal "users", .capture "id"]⟩, fun _ => ⟨1, .panicked none⟩⟩] := by rfl
  have hperm := hdescribes.faithful.2
  rw [hlisted] at hperm
  refine ⟨haccepted, hseals, doc, hdoc, hperm fun r hr s hs _ hm _ => ?_⟩
  rcases List.mem_pair.1 hr with rfl | rfl <;> rcases List.mem_pair.1 hs with rfl | rfl <;> first | rfl | cases hm

/-- A capture and a wildcard of one name: both routes are accepted, and they share the place of one operation. -/
theorem capture_and_wildcard_share_operation :
    let calls : List Call := [.serveDocument "/api" "A" "1", .register .get "/files/:path" fun _ => ⟨0, .panicked none⟩,
      .register .get "/files/*path" fun _ => ⟨1, .panicked none⟩]
    let t := (performAll calls empty).table
    let doc := describe "A" "1" "/api" t.routes
    Accepted calls empty ∧ SealsTo calls t ∧ t.Publishes "/api" (Bytes.ofText doc.text) ∧
      ((listed "/api" t.routes).filterMap operationOf?).map Operation.place =
        [("/files/{path}", "get"), ("/files/{path}", "get")] ∧
      ¬ (operations doc).Perm ((listed "/api" t.routes).filterMap operationOf?) := by
  intro calls t doc
  have haccepted : Accepted calls empty := ⟨rfl, rfl, rfl, trivial⟩
  have hseals : SealsTo calls t := ⟨_, List.Perm.refl _, rfl⟩
  have hplaces : ((listed "/api" t.routes).filterMap operationOf?).map Operation.place =
      [("/files/{path}", "get"), ("/files/{path}", "get")] := by rfl
  refine ⟨haccepted, hseals, hseals.publishes haccepted List.mem_cons_self, hplaces, fun hperm => ?_⟩
  have hnodup := (operations_perm_iff _ _ _ _).1 hperm
  rw [hplaces] at hnodup
  exact absurd hnodup (by decide)

end Builder

end Hypertext
