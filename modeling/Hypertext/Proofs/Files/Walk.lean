/-
Walks through a tree of files. A walk that starts at a real place, one with no links on the way to it, ends at a real
place: its links have all been followed. Such a place is found again from its own path, which names no links, so nothing
on that path leads elsewhere.
-/
import Hypertext.Route.Directory
import Mathlib.Tactic.SplitIfs

namespace Hypertext

/-- A node that is no link: a walk can stay there. -/
def FileNode.Plain : FileNode → Prop
  | .link _ => False
  | _ => True

@[simp] theorem FileNode.plain_directory : FileNode.directory.Plain := trivial

@[simp] theorem FileNode.plain_file (content : Bytes) : (FileNode.file content).Plain := trivial

namespace FileTree

/-- A step that names what stands below a directory. -/
structure IsName (step : String) : Prop where
  undivided : '/' ∉ step.toList
  nonempty : step ≠ ""
  notSame : step ≠ "."
  notUp : step ≠ ".."
  short : step.utf8ByteSize ≤ maxNameLength

instance (step : String) : Decidable (IsName step) :=
  decidable_of_iff ('/' ∉ step.toList ∧ step ≠ "" ∧ step ≠ "." ∧ step ≠ ".." ∧ step.utf8ByteSize ≤ maxNameLength)
    ⟨fun ⟨h1, h2, h3, h4, h5⟩ => ⟨h1, h2, h3, h4, h5⟩, fun ⟨h1, h2, h3, h4, h5⟩ => ⟨h1, h2, h3, h4, h5⟩⟩

/-- A place that is reached from the root through directories alone and is no link itself. -/
inductive Real (t : FileTree) : List String → Prop
  | root : Real t []
  | child {place : List String} {step : String} {node : FileNode} (above : Real t place)
      (directory : t.get? place = some .directory) (named : IsName step)
      (stands : t.get? (place ++ [step]) = some node) (plain : node.Plain) : Real t (place ++ [step])

variable {t : FileTree} {place place' : List String} {step : String} {rest : List String} {links : Nat}

theorem Real.dropLast (h : t.Real place) : t.Real place.dropLast := by
  cases h with
  | root => exact .root
  | child above => simpa using above

theorem Real.isName (h : t.Real place) : ∀ step ∈ place, IsName step := by
  induction h with
  | root => simp
  | child above directory named stands plain ih =>
    intro s hs
    rcases List.mem_append.1 hs with hs | hs
    · exact ih s hs
    · rw [List.mem_singleton.1 hs]
      exact named

/-! ## One step -/

/-- A step to the same place. -/
theorem walk_same (hdir : t.get? place = some .directory) (hstep : step = "" ∨ step = ".") :
    t.walk links place (step :: rest) = t.walk links place rest := by
  rw [walk.eq_def]
  simp only [hdir]
  rw [if_pos (by simpa using hstep)]

/-- A step to what stands below a directory and is no link. -/
theorem walk_child {node : FileNode} (hdir : t.get? place = some .directory) (hname : IsName step)
    (hnode : t.get? (place ++ [step]) = some node) (hplain : node.Plain) :
    t.walk links place (step :: rest) = t.walk links (place ++ [step]) rest := by
  rw [walk.eq_def]
  simp only [hdir, hnode]
  rw [if_neg (by simp [hname.nonempty, hname.notSame]), if_neg (by simp [hname.notUp]),
    if_neg (Nat.not_lt.2 hname.short)]
  cases node with
  | link target => exact hplain.elim
  | _ => rfl

/-- A step to the directory above. -/
theorem walk_up (hdir : t.get? place = some .directory) :
    t.walk links place (".." :: rest) = t.walk links place.dropLast rest := by
  rw [walk.eq_def]
  simp only [hdir]
  rw [if_neg (by decide), if_pos (by decide)]

/-- A step to a link whose target is a path from the same directory. -/
theorem walk_link {target : String} (hdir : t.get? place = some .directory) (hname : IsName step)
    (hnode : t.get? (place ++ [step]) = some (.link target)) (hrelative : target.toList.head? ≠ some '/') :
    t.walk (links + 1) place (step :: rest) = t.walk links place (steps target ++ rest) := by
  rw [walk.eq_def]
  simp only [hdir, hnode]
  rw [if_neg (by simp [hname.nonempty, hname.notSame]), if_neg (by simp [hname.notUp]),
    if_neg (Nat.not_lt.2 hname.short), if_neg (by simpa using hrelative)]

/-- A step to where nothing stands. -/
theorem walk_missing (hdir : t.get? place = some .directory) (hname : IsName step)
    (hnode : t.get? (place ++ [step]) = none) : t.walk links place (step :: rest) = .error missing := by
  rw [walk.eq_def]
  simp only [hdir, hnode]
  rw [if_neg (by simp [hname.nonempty, hname.notSame]), if_neg (by simp [hname.notUp]),
    if_neg (Nat.not_lt.2 hname.short)]

/-! ## Whole walks -/

/-- A walk ends at a real place. -/
theorem Real.of_walk {todo : List String} (h : t.Real place) (htodo : ∀ step ∈ todo, '/' ∉ step.toList)
    (hwalk : t.walk links place todo = .ok place') : t.Real place' := by
  fun_induction FileTree.walk t links place todo with
  | case1 links place =>
    cases hwalk
    exact h
  | case2 links place step rest hdir hsame ih =>
    exact ih h (fun s hs => htodo s (List.mem_cons_of_mem _ hs)) hwalk
  | case3 links place step rest hdir hsame hup ih =>
    exact ih h.dropLast (fun s hs => htodo s (List.mem_cons_of_mem _ hs)) hwalk
  | case7 place step rest hdir hsame hup hlong target links hlink start ih =>
    -- what is left to do are the steps of the target and then the rest
    have hstart : t.Real start := by
      unfold start
      split
      · exact .root
      · exact h
    refine ih hstart (fun s hs => ?_) hwalk
    rcases List.mem_append.1 hs with hs | hs
    · exact Text.not_mem_of_mem_split hs
    · exact htodo s (List.mem_cons_of_mem _ hs)
  | case8 place step rest hdir hsame hup hlong node links hlink hlink' hnode ih =>
    have hname : IsName step := by
      simp only [Bool.or_eq_true, beq_iff_eq, not_or] at hsame hup
      exact ⟨htodo step List.mem_cons_self, hsame.1, hsame.2, hup, Nat.not_lt.1 hlong⟩
    have hplain : node.Plain := by
      cases node with
      | link target =>
        cases links with
        | zero => exact hlink target rfl rfl
        | succ links => exact hlink' target links rfl rfl
      | _ => trivial
    exact ih (.child h hdir hname hnode hplain) (fun s hs => htodo s (List.mem_cons_of_mem _ hs)) hwalk
  | _ => cases hwalk

/-- The steps of a real place lead to it. -/
theorem Real.walk_append (h : t.Real place) : t.walk links [] (place ++ rest) = t.walk links place rest := by
  induction h generalizing rest with
  | root => rfl
  | child above hdir hname hnode hplain ih =>
    rw [List.append_assoc, List.singleton_append, ih, walk_child hdir hname hnode hplain]

/-! ## Paths -/

theorem steps_append (path path' : String) : steps (path ++ "/" ++ path') = steps path ++ steps path' :=
  Text.split_append '/' path path'

theorem steps_pathText (place : List String) : steps (Directory.pathText place) = "" :: steps (Text.join "/" place) := by
  have hempty : Directory.pathText place = "" ++ "/" ++ Text.join "/" place := by
    rw [Directory.pathText, String.empty_append]
  rw [hempty, steps_append]
  rfl

/-- The path of what stands below a real place leads there by one step from that place. -/
theorem Real.walk_pathText_child (h : t.Real place) (hname : IsName step) :
    t.walk links [] (steps (Directory.pathText (place ++ [step]))) = t.walk links place [step] := by
  have hundivided : ∀ s ∈ place ++ [step], '/' ∉ s.toList := by
    intro s hs
    rcases List.mem_append.1 hs with hs | hs
    · exact (h.isName s hs).undivided
    · rw [List.mem_singleton.1 hs]
      exact hname.undivided
  have hsteps : steps (Text.join "/" (place ++ [step])) = place ++ [step] := Text.split_join hundivided (by simp)
  rw [steps_pathText, walk_same rfl (.inl rfl), hsteps, h.walk_append]

/-- The path of a real place leads to it. -/
theorem Real.walk_pathText (h : t.Real place) : t.walk links [] (steps (Directory.pathText place)) = .ok place := by
  cases h with
  | root =>
    rw [steps_pathText, walk_same rfl (.inl rfl), show steps (Text.join "/" []) = [""] from rfl,
      walk_same rfl (.inl rfl), walk]
  | child above hdir hname hnode hplain => rw [above.walk_pathText_child hname, walk_child hdir hname hnode hplain, walk]

theorem canonical_eq_ok_iff {path : String} :
    t.canonical path = .ok place ↔ '\x00' ∉ path.toList ∧ path ≠ "" ∧ t.walk maxLinks [] (steps path) = .ok place := by
  unfold canonical
  split_ifs with hzero hempty
  · simp_all
  · simp_all
  · simp_all

/-- What a path leads to is a real place. -/
theorem real_of_canonical {path : String} (h : t.canonical path = .ok place) : t.Real place :=
  Real.root.of_walk (fun _ hs => Text.not_mem_of_mem_split hs) (canonical_eq_ok_iff.1 h).2.2

/-- The path of a real place leads to it and nowhere else. -/
theorem Real.canonical_pathText_iff (h : t.Real place) :
    t.canonical (Directory.pathText place) = .ok place' ↔ '\x00' ∉ (Directory.pathText place).toList ∧ place' = place := by
  have hne : Directory.pathText place ≠ "" := by
    intro he
    have hlist := congrArg String.toList he
    simp [Directory.pathText] at hlist
  rw [canonical_eq_ok_iff, h.walk_pathText, Except.ok.injEq, eq_comm]
  simp [hne]

/-- The path of what would stand below a real directory leads to it, if it is there and is no link. -/
theorem Real.child_of_canonical (h : t.Real place) (hdir : t.get? place = some .directory) (hname : IsName step)
    (hlink : ∀ target, t.get? (place ++ [step]) ≠ some (.link target))
    (hcanonical : t.canonical (Directory.pathText (place ++ [step])) = .ok place') : place' = place ++ [step] := by
  have hwalk := (canonical_eq_ok_iff.1 hcanonical).2.2
  rw [h.walk_pathText_child hname] at hwalk
  cases hnode : t.get? (place ++ [step]) with
  | none =>
    rw [walk_missing hdir hname hnode] at hwalk
    cases hwalk
  | some node =>
    have hplain : node.Plain := by
      cases node with
      | link target => exact absurd hnode (hlink target)
      | _ => trivial
    exact ((Real.child h hdir hname hnode hplain).canonical_pathText_iff.1 hcanonical).2

/-! ## Reading -/

theorem read_eq_ok_iff {path : String} {content : Bytes} :
    t.read path = .ok content ↔ ∃ file, t.canonical path = .ok file ∧ t.get? file = some (.file content) := by
  unfold read
  cases hpath : t.canonical path with
  | error e => simp [bind, Except.bind]
  | ok file =>
    cases hnode : t.get? file with
    | none => simp [bind, Except.bind, hnode, throw, throwThe, MonadExceptOf.throw]
    | some node => cases node <;> simp [bind, Except.bind, hnode, pure, Except.pure, throw, throwThe, MonadExceptOf.throw]

end FileTree

end Hypertext
