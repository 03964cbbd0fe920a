/-
The chunked coding read by positions. A position says how many bytes of the buffer stand before it, and it is a machine
word: a sum of positions may not fit into one, and the bytes between two positions may not all be there. Where that
happens the reading has no outcome at all.
-/
import Hypertext.Message.Body
import Hypertext.Text.Integer

namespace Hypertext

namespace Word

/-- The sum of two words, if it is one. -/
def add? (a b : Nat) : Option Nat := if a + b ≤ Text.maxWord then some (a + b) else none

/-- The sum of two words, or the largest word where it is none. -/
def saturatingAdd (a b : Nat) : Nat := min (a + b) Text.maxWord

variable {a b n : Nat}

theorem add?_eq_some_iff : add? a b = some n ↔ a + b = n ∧ n ≤ Text.maxWord := by
  unfold add?
  split
  · simp only [Option.some.injEq]; omega
  · simp only [reduceCtorEq, false_iff]; omega

theorem add?_of_le (h : a + b ≤ Text.maxWord) : add? a b = some (a + b) := if_pos h

theorem add?_eq_none (h : Text.maxWord < a + b) : add? a b = none := if_neg (Nat.not_le_of_lt h)

theorem lt_of_lt_saturatingAdd (h : n < saturatingAdd a b) : n < a + b := Nat.lt_of_lt_of_le h (Nat.min_le_left _ _)

theorem saturatingAdd_of_le (h : a + b ≤ Text.maxWord) : saturatingAdd a b = a + b := Nat.min_eq_left h

end Word

namespace Bytes

/-- The bytes between two positions, if they are there. -/
def slice? (start stop : Nat) (s : Bytes) : Option Bytes :=
  if start ≤ stop ∧ stop ≤ s.length then some ((s.take stop).drop start) else none

/-- How many bytes stand before the first end of a line. -/
def lineLength? : Bytes → Option Nat
  | 13 :: 10 :: _ => some 0
  | _ :: rest => (lineLength? rest).map (· + 1)
  | [] => none

variable {start stop : Nat} {s t : Bytes}

theorem slice?_eq_some_iff :
    slice? start stop s = some t ↔ start ≤ stop ∧ stop ≤ s.length ∧ (s.take stop).drop start = t := by
  simp [slice?, and_assoc]

theorem slice?_of_le (h : start ≤ stop) (hstop : stop ≤ s.length) :
    slice? start stop s = some ((s.take stop).drop start) := if_pos ⟨h, hstop⟩

theorem slice?_add {n : Nat} (h : start + n ≤ s.length) :
    slice? start (start + n) s = some ((s.drop start).take n) := by
  rw [slice?_of_le (Nat.le_add_right _ _) h, List.drop_take, Nat.add_sub_cancel_left]

/-- All bytes from a position on. -/
theorem slice?_length (h : start ≤ s.length) : slice? start s.length s = some (s.drop start) := by
  rw [slice?_of_le h (Nat.le_refl _), List.take_length]

theorem lineLength?_le {n : Nat} (h : lineLength? s = some n) : n + 2 ≤ s.length := by
  fun_induction lineLength? s generalizing n with
  | case1 => cases h; simp
  | case2 b rest _ ih =>
    obtain ⟨m, hm, rfl⟩ := Option.map_eq_some_iff.1 h
    have := ih hm
    simp only [List.length_cons]; omega
  | case3 => cases h

end Bytes

namespace Chunked

/-! ## Trailers -/

/-- The length of the line at a position and the position after the end of the line, if that has an end. -/
def lineAt (buffer : Bytes) (pos : Nat) : Option (Option (Nat × Nat)) := do
  let ahead ← buffer.slice? pos buffer.length
  match ahead.lineLength? with
  | none => return none
  | some length =>
    let next ← Word.add? pos (← Word.add? length 2)
    return some (length, next)

theorem lt_of_lineAt {buffer : Bytes} {pos length next : Nat} (h : lineAt buffer pos = some (some (length, next))) :
    pos < next ∧ next ≤ buffer.length := by
  simp only [lineAt, bind, Option.bind_eq_some_iff, Bytes.slice?_eq_some_iff] at h
  obtain ⟨ahead, ⟨hpos, -, rfl⟩, h⟩ := h
  split at h
  · cases h
  · next n hn =>
    have hle := Bytes.lineLength?_le hn
    simp only [Option.bind_eq_some_iff, Word.add?_eq_some_iff] at h
    obtain ⟨_, ⟨rfl, -⟩, _, ⟨rfl, -⟩, h⟩ := h
    cases h
    simp only [List.take_length, List.length_drop] at hle
    omega

/-- Passes the trailer lines from a position on, and the empty line at their end. -/
def trailersAt (limit : Nat) (buffer : Bytes) (pos : Nat) : Option Decoded :=
  if limit < pos then some (.error (.tooLarge limit))
  else
    match _h : lineAt buffer pos with
    | none => none
    | some none => some (unfinished buffer.length limit)
    | some (some (length, next)) =>
      if length = 0 then (buffer.slice? next buffer.length).map fun rest => .ok (some ([], rest))
      else trailersAt limit buffer next
termination_by buffer.length - pos
decreasing_by
  have := lt_of_lineAt _h
  omega

/-! ## Chunks -/

/-- What there is at a position: the end of the reading, the first trailer, or the data of a chunk with what is after
it. -/
inductive ChunkStep
  | stop (found : Decoded)
  | trailers (pos : Nat)
  | chunk (data : Bytes) (next : Nat)

/-- Looks at the chunk at a position. One that would end past the limit is refused before its data is looked for. -/
def chunkAt (limit : Nat) (buffer : Bytes) (pos : Nat) : Option ChunkStep := do
  let ahead ← buffer.slice? pos buffer.length
  match sizeLine ahead with
  | .bad _ => return .stop (.error .invalidChunk)
  | .more => return .stop (unfinished buffer.length limit)
  | .done size rest =>
    let start ← Word.add? pos (ahead.length - rest.length)
    if size = 0 then return .trailers start
    if limit < Word.saturatingAdd start size then return .stop (.error (.tooLarge limit))
    let stop ← Word.add? start size
    let next ← Word.add? stop 2
    if buffer.length < next then return .stop (unfinished buffer.length limit)
    let data ← buffer.slice? start stop
    let mark ← buffer.slice? stop next
    if mark != Bytes.crlf then return .stop (.error .invalidChunk)
    return .chunk data next

theorem lt_of_chunkAt {limit pos next : Nat} {buffer data : Bytes}
    (h : chunkAt limit buffer pos = some (.chunk data next)) : pos < next ∧ next ≤ buffer.length := by
  simp only [chunkAt, bind, Option.bind_eq_some_iff] at h
  obtain ⟨ahead, -, h⟩ := h
  split at h
  · cases h
  · cases h
  · simp only [Option.bind_eq_some_iff, Word.add?_eq_some_iff] at h
    obtain ⟨start, ⟨rfl, -⟩, h⟩ := h
    split at h
    · cases h
    split at h
    · cases h
    simp only [Option.bind_eq_some_iff, Word.add?_eq_some_iff] at h
    obtain ⟨_, ⟨rfl, -⟩, _, ⟨rfl, -⟩, h⟩ := h
    split at h
    · cases h
    simp only [Option.bind_eq_some_iff] at h
    obtain ⟨_, -, _, -, h⟩ := h
    split at h
    · cases h
    · cases h
      omega

/-- The chunks from a position on. -/
def chunksAt (limit : Nat) (buffer : Bytes) (pos : Nat) : Option Decoded :=
  match _h : chunkAt limit buffer pos with
  | none => none
  | some (.stop found) => some found
  | some (.trailers start) => trailersAt limit buffer start
  | some (.chunk data next) => (chunksAt limit buffer next).map (·.map (·.map fun p => (data ++ p.1, p.2)))
termination_by buffer.length - pos
decreasing_by
  have := lt_of_chunkAt _h
  omega

theorem chunksAt_eq (limit : Nat) (buffer : Bytes) (pos : Nat) :
    chunksAt limit buffer pos =
      match chunkAt limit buffer pos with
      | none => none
      | some (.stop found) => some found
      | some (.trailers start) => trailersAt limit buffer start
      | some (.chunk data next) => (chunksAt limit buffer next).map (·.map (·.map fun p => (data ++ p.1, p.2))) := by
  rw [chunksAt]
  split <;> simp_all

/-- A chunked body at the front of a buffer, if every sum on the way to it is a word. -/
def decode? (limit : Nat) (buffer : Bytes) : Option Decoded := chunksAt limit buffer 0

end Chunked

/-- Takes the body off the front of a buffer, where that has an outcome. Only chunks are looked for by positions that
are sums. -/
def Framing.take? (f : Framing) (limit : Nat) (buffer : Bytes) : Option (Except BodyError (Option Bytes) × Bytes) :=
  match f with
  | .chunked => (Chunked.decode? limit buffer).map fun
    | .ok (some (body, rest)) => (.ok (some body), rest)
    | .ok none => (.ok none, buffer)
    | .error e => (.error e, buffer)
  | f => some (f.take limit buffer)

end Hypertext
