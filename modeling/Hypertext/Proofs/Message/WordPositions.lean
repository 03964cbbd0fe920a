/-
The chunked coding read by positions that are words. The reading by positions finds what the grammar has there, unless
the position after a chunk is no word; then it has no outcome, and that takes a limit that is hardly less than a word
can be.
-/
import Hypertext.Message.Positions
import Hypertext.Proofs.Message.ChunkedGrammar
import Hypertext.Proofs.Message.RawHead
import Hypertext.Proofs.Server.Admission
import Hypertext.Config.Client

namespace Hypertext

namespace Chunked

variable {limit total pos size : Nat} {buffer rest s : Bytes}

/-! ## Trailers -/

/-- A line is passed at once. -/
theorem trailers_within (s : Bytes) :
    trailers total limit false s =
      match s.lineLength? with
      | none => unfinished total limit
      | some n => trailers total limit true (s.drop (n + 2)) := by
  fun_induction Bytes.lineLength? s with
  | case1 after => rw [trailers]; rfl
  | case2 b after hend ih =>
    rw [trailers, ih]
    · cases Bytes.lineLength? after <;> rfl
    · exact hend
  | case3 => rw [trailers]

/-- What the lines from the start of one come to. -/
theorem trailers_eq (s : Bytes) :
    trailers total limit true s =
      if limit < total - s.length then .error (.tooLarge limit)
      else match s.lineLength? with
        | none => unfinished total limit
        | some n => if n = 0 then .ok (some ([], s.drop 2)) else trailers total limit true (s.drop (n + 2)) := by
  fun_cases Bytes.lineLength? s with
  | case1 after => rw [trailers]; rfl
  | case2 b after hend =>
    rw [trailers, trailers_within]
    · cases Bytes.lineLength? after <;> rfl
    · exact hend
  | case3 => rw [trailers]

theorem lineAt_eq (hword : buffer.length ≤ Text.maxWord) (hpos : pos ≤ buffer.length) :
    lineAt buffer pos = some ((Bytes.lineLength? (buffer.drop pos)).map fun n => (n, pos + (n + 2))) := by
  rw [lineAt, Bytes.slice?_length hpos]
  cases hn : Bytes.lineLength? (buffer.drop pos) with
  | none => simp [hn]
  | some n =>
    have hle := Bytes.lineLength?_le hn
    rw [List.length_drop] at hle
    simp [hn, Word.add?_of_le (a := n) (b := 2) (by omega), Word.add?_of_le (a := pos) (b := n + 2) (by omega)]

theorem lineAt_eq_some (hword : buffer.length ≤ Text.maxWord) (hpos : pos ≤ buffer.length) {length next : Nat}
    (h : lineAt buffer pos = some (some (length, next))) :
    Bytes.lineLength? (buffer.drop pos) = some length ∧ next = pos + (length + 2) := by
  rw [lineAt_eq hword hpos, Option.some.injEq, Option.map_eq_some_iff] at h
  obtain ⟨n, hn, heq⟩ := h
  cases heq
  exact ⟨hn, rfl⟩

/-- The trailers that are found from a position on. -/
theorem trailersAt_eq (hword : buffer.length ≤ Text.maxWord) (hpos : pos ≤ buffer.length) :
    trailersAt limit buffer pos = some (trailers buffer.length limit true (buffer.drop pos)) := by
  have hbefore (p : Nat) (hp : p ≤ buffer.length) : buffer.length - (buffer.drop p).length = p := by
    rw [List.length_drop]; omega
  fun_induction trailersAt limit buffer pos with
  | case1 pos hlimit => rw [trailers_eq, hbefore pos hpos, if_pos hlimit]
  | case2 pos _ h => rw [lineAt_eq hword hpos] at h; cases h
  | case3 pos hlimit h =>
    rw [lineAt_eq hword hpos, Option.some.injEq, Option.map_eq_none_iff] at h
    rw [trailers_eq, hbefore pos hpos, if_neg hlimit, h]
  | case4 pos hlimit next h =>
    have hnext := (lt_of_lineAt h).2
    obtain ⟨hn, rfl⟩ := lineAt_eq_some hword hpos h
    rw [trailers_eq, hbefore pos hpos, if_neg hlimit, hn, Bytes.slice?_length hnext]
    simp [List.drop_drop]
  | case5 pos hlimit length next h hz ih =>
    have hnext := (lt_of_lineAt h).2
    obtain ⟨hn, rfl⟩ := lineAt_eq_some hword hpos h
    rw [trailers_eq, hbefore pos hpos, if_neg hlimit, hn, ih hnext]
    simp only [if_neg hz, List.drop_drop]

/-! ## Chunks -/

theorem chunkAt_of_bad (hpos : pos ≤ buffer.length) (h : sizeLine (buffer.drop pos) = .bad ()) :
    chunkAt limit buffer pos = some (.stop (.error .invalidChunk)) := by
  simp [chunkAt, Bytes.slice?_length hpos, h]

theorem chunkAt_of_more (hpos : pos ≤ buffer.length) (h : sizeLine (buffer.drop pos) = .more) :
    chunkAt limit buffer pos = some (.stop (unfinished buffer.length limit)) := by
  simp [chunkAt, Bytes.slice?_length hpos, h]

/-- The bytes after a size line are those from a position on. -/
theorem drop_of_sizeLine (h : sizeLine (buffer.drop pos) = .done size rest) :
    rest.length ≤ buffer.length - pos ∧ rest = buffer.drop (buffer.length - rest.length) := by
  have hsuffix := sizeLine_incremental.suffix h
  refine ⟨by simpa using hsuffix.length_le, ?_⟩
  exact List.suffix_iff_eq_drop.1 (hsuffix.trans (List.drop_suffix _ _))

/-- What a size line comes to that has been read: the last two sums are made only where the data may end within the
limit, and one of them may be no word. -/
theorem chunkAt_of_done (hword : buffer.length ≤ Text.maxWord) (hpos : pos ≤ buffer.length)
    (h : sizeLine (buffer.drop pos) = .done size rest) :
    chunkAt limit buffer pos =
      if size = 0 then some (.trailers (buffer.length - rest.length))
      else if limit < Word.saturatingAdd (buffer.length - rest.length) size then some (.stop (.error (.tooLarge limit)))
      else if Text.maxWord < buffer.length - rest.length + size + 2 then none
      else if rest.length < size + 2 then some (.stop (unfinished buffer.length limit))
      else if (rest.drop size).take 2 != Bytes.crlf then some (.stop (.error .invalidChunk))
      else some (.chunk (rest.take size) (buffer.length - rest.length + size + 2)) := by
  obtain ⟨hle, hrest⟩ := drop_of_sizeLine h
  have hstart : Word.add? pos ((buffer.drop pos).length - rest.length) = some (buffer.length - rest.length) := by
    rw [Word.add?_eq_some_iff, List.length_drop]; omega
  simp only [chunkAt, Bytes.slice?_length hpos, bind, Option.bind_some, h, hstart, pure]
  generalize hp : buffer.length - rest.length = start at hrest ⊢
  by_cases hz : size = 0
  · rw [if_pos hz, if_pos hz]
  rw [if_neg hz, if_neg hz]
  by_cases hlimit : limit < Word.saturatingAdd start size
  · rw [if_pos hlimit, if_pos hlimit]
  rw [if_neg hlimit, if_neg hlimit]
  by_cases hwords : Text.maxWord < start + size + 2
  · rw [if_pos hwords]
    by_cases hend : Text.maxWord < start + size
    · rw [Word.add?_eq_none hend]; rfl
    · rw [Word.add?_of_le (by omega), Option.bind_some, Word.add?_eq_none hwords]; rfl
  rw [if_neg hwords, Word.add?_of_le (by omega), Option.bind_some, Word.add?_of_le (by omega), Option.bind_some]
  by_cases hshort : rest.length < size + 2
  · rw [if_pos hshort, if_pos (by omega)]
  have hdata : buffer.slice? start (start + size) = some (rest.take size) := by
    rw [Bytes.slice?_add (by omega), ← hrest]
  have hmark : buffer.slice? (start + size) (start + size + 2) = some ((rest.drop size).take 2) := by
    rw [Bytes.slice?_add (by omega), ← List.drop_drop, ← hrest]
  rw [if_neg hshort, if_neg (by omega), hdata, Option.bind_some, hmark, Option.bind_some]

/-- After some chunks there is the size line of a chunk that ends within the limit as far as a word can tell, and the
position after that chunk is no word. -/
def Overruns (total limit : Nat) (s : Bytes) : Prop :=
  ∃ (lead : List Chunk) (line : SizeLine) (rest : Bytes),
    s = lead.flatMap Chunk.bytes ++ (line.bytes ++ rest) ∧ line.size ≠ 0 ∧
      Word.saturatingAdd (total - rest.length) line.size ≤ limit ∧
      Text.maxWord < total - rest.length + line.size + 2

theorem Overruns.cons (c : Chunk) (h : Overruns total limit s) : Overruns total limit (c.bytes ++ s) := by
  obtain ⟨lead, line, rest, rfl, h⟩ := h
  exact ⟨c :: lead, line, rest, by simp, h⟩

/-- It takes a limit that is the largest word or the one before. -/
theorem Overruns.maxWord_le (h : Overruns total limit s) : Text.maxWord ≤ limit + 1 := by
  obtain ⟨lead, line, rest, -, -, hlimit, hwords⟩ := h
  unfold Word.saturatingAdd at hlimit
  omega

/-- What is seen at a position is what the reading by bytes finds there. -/
theorem chunkAt_spec (limit : Nat) (hword : buffer.length ≤ Text.maxWord) (hpos : pos ≤ buffer.length) :
    match chunkAt limit buffer pos with
    | none => Overruns buffer.length limit (buffer.drop pos)
    | some (.stop found) => chunks buffer.length limit (buffer.drop pos) = found
    | some (.trailers start) => start ≤ buffer.length ∧
        chunks buffer.length limit (buffer.drop pos) = trailers buffer.length limit true (buffer.drop start)
    | some (.chunk data next) => (∃ c : Chunk, buffer.drop pos = c.bytes ++ buffer.drop next) ∧
        chunks buffer.length limit (buffer.drop pos) =
          (chunks buffer.length limit (buffer.drop next)).map (·.map fun p => (data ++ p.1, p.2)) := by
  cases hs : sizeLine (buffer.drop pos) with
  | bad e => rw [chunkAt_of_bad hpos hs]; exact chunks_of_bad hs
  | more => rw [chunkAt_of_more hpos hs]; exact chunks_of_more hs
  | done size rest =>
    obtain ⟨hle, hrest⟩ := drop_of_sizeLine hs
    by_cases hz : size = 0
    · subst hz
      rw [chunkAt_of_done hword hpos hs, if_pos rfl]
      exact ⟨Nat.sub_le _ _, by rw [chunks_of_last hs, ← hrest]⟩
    have hchunks := @chunks_of_chunk buffer.length limit _ _ _ hz hs
    rw [chunkAt_of_done hword hpos hs, if_neg hz]
    split_ifs with hlimit hwords hshort hmark
    · rw [if_pos (Word.lt_of_lt_saturatingAdd hlimit)] at hchunks
      exact hchunks
    · obtain ⟨line, hline, rfl⟩ := exists_of_sizeLine hs
      exact ⟨[], line, rest, hline, hz, Nat.le_of_not_lt hlimit, hwords⟩
    -- The position after the chunk is a word, so the saturating sum is the sum.
    all_goals rw [Word.saturatingAdd_of_le (by omega)] at hlimit; rw [if_neg hlimit] at hchunks
    · rwa [if_pos hshort] at hchunks
    · rwa [if_neg hshort, if_pos hmark] at hchunks
    · rw [if_neg hshort, if_neg hmark] at hchunks
      have hnext : rest.drop (size + 2) = buffer.drop (buffer.length - rest.length + size + 2) := by
        rw [Nat.add_assoc, ← List.drop_drop (i := size + 2), ← hrest]
      obtain ⟨c, hc, -⟩ := exists_chunk hs hz (Nat.le_of_not_lt hshort) (by simpa using hmark)
      rw [hnext] at hc hchunks
      exact ⟨⟨c, hc⟩, hchunks⟩

/-- A chunk of the grammar that ends within the limit is passed. -/
theorem chunkAt_of_chunk (hword : buffer.length ≤ Text.maxWord) (hpos : pos ≤ buffer.length) (c : Chunk) {after : Bytes}
    (hs : buffer.drop pos = c.bytes ++ after) (hlimit : buffer.length ≤ limit + after.length) :
    chunkAt limit buffer pos = some (.chunk c.data (buffer.length - after.length)) := by
  have hline := c.sizeLine_append after
  rw [← hs] at hline
  have hlen : (c.data ++ (Bytes.crlf ++ after)).length = c.data.length + 2 + after.length := by
    simp [Bytes.crlf]; omega
  have hle := (drop_of_sizeLine hline).1
  rw [chunkAt_of_done hword hpos hline, if_neg c.size_ne_zero, c.size_eq, Word.saturatingAdd_of_le (by omega),
    if_neg (by omega), if_neg (by omega), if_neg (by omega), if_neg (by simp [Bytes.crlf]), List.take_left]
  congr 2
  omega

/-- Where no chunk overruns, the reading by positions has the outcome of the reading by bytes. -/
theorem chunksAt_of_not_overruns (hword : buffer.length ≤ Text.maxWord) (hpos : pos ≤ buffer.length)
    (h : ¬ Overruns buffer.length limit (buffer.drop pos)) :
    chunksAt limit buffer pos = some (chunks buffer.length limit (buffer.drop pos)) := by
  have hstep := chunkAt_spec limit hword hpos
  fun_induction chunksAt limit buffer pos with
  | case1 pos hnone => rw [hnone] at hstep; exact absurd hstep h
  | case2 pos found hstop => rw [hstop] at hstep; rw [hstep]
  | case3 pos start htrailers =>
    rw [htrailers] at hstep
    rw [hstep.2, trailersAt_eq hword hstep.1]
  | case4 pos data next hchunk ih =>
    rw [hchunk] at hstep
    obtain ⟨⟨c, hc⟩, hrest⟩ := hstep
    have hnext := (lt_of_chunkAt hchunk).2
    have hlater : ¬ Overruns buffer.length limit (buffer.drop next) := fun hover => h (hc ▸ hover.cons c)
    rw [hrest, ih hnext hlater (chunkAt_spec limit hword hnext), Option.map_some]

/-- Where a chunk overruns, all before it is passed, and there is no outcome. -/
theorem chunksAt_of_overruns (hword : buffer.length ≤ Text.maxWord) (hpos : pos ≤ buffer.length)
    (h : Overruns buffer.length limit (buffer.drop pos)) : chunksAt limit buffer pos = none := by
  obtain ⟨lead, line, rest, hs, hz, hlimit, hwords⟩ := h
  induction lead generalizing pos with
  | nil =>
    have hline : sizeLine (buffer.drop pos) = .done line.size rest := hs ▸ sizeLine_append line rest
    rw [chunksAt_eq, chunkAt_of_done hword hpos hline, if_neg hz, if_neg (Nat.not_lt_of_le hlimit), if_pos hwords]
  | cons c lead ih =>
    rw [List.flatMap_cons, List.append_assoc] at hs
    generalize hafter : lead.flatMap Chunk.bytes ++ (line.bytes ++ rest) = after at hs ih
    have hsuffix : after <:+ buffer := ⟨_, by rw [← List.take_append_drop pos buffer, hs, List.append_assoc]⟩
    have hrest : rest.length ≤ after.length := by rw [← hafter]; simp; omega
    have hroom : buffer.length ≤ limit + after.length := by
      unfold Word.saturatingAdd at hlimit
      omega
    rw [chunksAt_eq, chunkAt_of_chunk hword hpos c hs hroom]
    dsimp only
    rw [ih (Nat.sub_le _ _) (List.suffix_iff_eq_drop.1 hsuffix).symm, Option.map_none]

theorem decode?_eq_none_iff (hword : buffer.length ≤ Text.maxWord) :
    decode? limit buffer = none ↔ Overruns buffer.length limit buffer := by
  constructor
  · intro hnone
    by_contra h
    rw [decode?, chunksAt_of_not_overruns hword (Nat.zero_le _) h] at hnone
    cases hnone
  · exact fun h => chunksAt_of_overruns hword (Nat.zero_le _) h

theorem decode?_of_not_overruns (hword : buffer.length ≤ Text.maxWord) (h : ¬ Overruns buffer.length limit buffer) :
    decode? limit buffer = some (decode limit buffer) :=
  chunksAt_of_not_overruns hword (Nat.zero_le _) h

/-- A size line that takes the position after the chunk just past the largest word. -/
def tightLine : SizeLine :=
  ⟨Bytes.ofText "FFFFFFFFFFFFFFEC", [], none, List.all_eq_true.1 rfl, by decide, List.forall_mem_nil _, by decide⟩

theorem tightLine_overruns (h : Text.maxWord ≤ limit + 1) :
    Overruns tightLine.bytes.length limit tightLine.bytes := by
  have hlength : tightLine.bytes.length = 18 := rfl
  have hsize : tightLine.size = 18446744073709551596 := rfl
  refine ⟨[], tightLine, [], by simp, by omega, ?_, ?_⟩
  · unfold Word.saturatingAdd
    simp only [hlength, hsize, List.length_nil]
    unfold Text.maxWord at h ⊢
    omega
  · simp only [hlength, hsize, List.length_nil]
    unfold Text.maxWord
    omega

end Chunked

namespace Request

/-- A request line is not empty, and it ends. -/
theorem parse_length {s rest : Bytes} {r : Request} (h : parse s = .ok (r, rest)) : rest.length + 2 ≤ s.length := by
  obtain ⟨head, hs, -⟩ := parse_eq_ok_iff.1 h
  obtain ⟨w, rfl, -⟩ := Head.request_eq_done hs
  have hfirst := List.length_pos_iff.2 w.nonempty
  have hending : 0 < w.ending.length := by
    rcases Head.lineEnds_cases w.ends with hend | hend <;> simp [hend]
  simp only [RawHead.bytes, List.length_append]
  omega

end Request

namespace Framing

variable {limit : Nat} {buffer : Bytes}

theorem take?_chunked_eq_none_iff : chunked.take? limit buffer = none ↔ Chunked.decode? limit buffer = none :=
  Option.map_eq_none_iff

theorem take?_chunked_of_decode? (h : Chunked.decode? limit buffer = some (Chunked.decode limit buffer)) :
    chunked.take? limit buffer = some (chunked.take limit buffer) := by
  rw [take?, h, take, decode]
  rcases Chunked.decode limit buffer with e | _ | ⟨body, rest⟩ <;> rfl

/-- Every sum on the way to the end of a chunked body is a word and every slice is there, exactly if no chunk overruns;
then what is found is what the grammar says. Only the two largest words are limits at which a chunk can overrun, and
every request that is read leaves less than those for its body. -/
theorem chunked_within_words (hword : buffer.length ≤ Text.maxWord) :
    (chunked.take? limit buffer = none ↔ Chunked.Overruns buffer.length limit buffer) ∧
    (¬ Chunked.Overruns buffer.length limit buffer → chunked.take? limit buffer = some (chunked.take limit buffer)) ∧
    ((∀ b : Bytes, b.length ≤ Text.maxWord → chunked.take? limit b ≠ none) ↔ limit + 2 ≤ Text.maxWord) ∧
    ∀ request afterHead, Request.parse buffer = .ok (request, afterHead) → ∀ max ≤ Text.maxWord,
      chunked.take? (max - (buffer.length - afterHead.length)) afterHead =
        some (chunked.take (max - (buffer.length - afterHead.length)) afterHead) := by
  have htake {l : Nat} {b : Bytes} (hb : b.length ≤ Text.maxWord) (h : ¬ Chunked.Overruns b.length l b) :
      chunked.take? l b = some (chunked.take l b) := take?_chunked_of_decode? (Chunked.decode?_of_not_overruns hb h)
  have hsafe {l : Nat} (hl : l + 2 ≤ Text.maxWord) (b : Bytes) : ¬ Chunked.Overruns b.length l b := by
    intro h
    have := h.maxWord_le
    omega
  refine ⟨take?_chunked_eq_none_iff.trans (Chunked.decode?_eq_none_iff hword), htake hword, ⟨?_, ?_⟩, ?_⟩
  · intro hsome
    by_contra hl
    have htight : Chunked.Overruns Chunked.tightLine.bytes.length limit Chunked.tightLine.bytes :=
      Chunked.tightLine_overruns (by omega)
    have hlength : Chunked.tightLine.bytes.length ≤ Text.maxWord := by decide
    exact hsome _ hlength (take?_chunked_eq_none_iff.2 ((Chunked.decode?_eq_none_iff hlength).2 htight))
  · intro hl b hb
    rw [htake hb (hsafe hl b)]
    exact Option.some_ne_none _
  · intro request afterHead hparse max hmax
    have hhead := Request.parse_length hparse
    exact htake (by omega) (hsafe (by omega) afterHead)

/-- A chunk of which only the size line is there: its data would end at the largest word but one. Where that is the
limit there is no outcome; where a request before it leaves less of the largest limit, the chunk is refused. -/
theorem chunked_within_words_tight :
    let head := Bytes.ofText "POST / HTTP/1.1\r\nTransfer-Encoding: chunked\r\n\r\n"
    let line := Bytes.ofText "FFFFFFFFFFFFFFEC\r\n"
    line.length ≤ Text.maxWord ∧ chunked.take? (Text.maxWord - 1) line = none ∧
    (head ++ line).length ≤ Text.maxWord ∧
    Request.parse (head ++ line) =
      .ok ({ Request.new .post "/" with headers := ⟨[("Transfer-Encoding", "chunked")]⟩ }, line) ∧
    chunked.take? (Text.maxWord - 47) line = some (.error (.tooLarge (Text.maxWord - 47)), line) := by
  intro head line
  have hline : line.length ≤ Text.maxWord := by decide
  have hrequest : (head ++ line).length ≤ Text.maxWord := by decide
  have hparse : Request.parse (head ++ line) =
      .ok ({ Request.new .post "/" with headers := ⟨[("Transfer-Encoding", "chunked")]⟩ }, line) := by decide
  have hrefused : chunked.decode (Text.maxWord - 47) line = .error (.tooLarge (Text.maxWord - 47)) := by
    have hsize : Chunked.sizeLine line = .done (Text.maxWord - 19) [] := Chunked.sizeLine_append Chunked.tightLine []
    rw [decode, Chunked.decode, Chunked.chunks_of_chunk (by decide) hsize, if_pos (by decide)]
  refine ⟨hline, ?_, hrequest, hparse, ?_⟩
  · exact (chunked_within_words hline).1.2 (Chunked.tightLine_overruns (by decide))
  · have htake := (@chunked_within_words 0 _ hrequest).2.2.2 _ _ hparse Text.maxWord (Nat.le_refl _)
    rw [← take_of_error hrefused]
    exact htake

/-- The largest limit passes the checks of a client, and then a size line can lead to a sum that is no word. -/
theorem chunked_beyond_words :
    let config := { ClientConfig.default with maxResponseBytes := Text.maxWord }
    let buffer := Bytes.ofText "FFFFFFFFFFFFFFFF\r\nX"
    config.validate = .ok () ∧ chunked.take? config.maxResponseBytes buffer = none := by
  intro config buffer
  let line : Chunked.SizeLine :=
    ⟨Bytes.ofText "FFFFFFFFFFFFFFFF", [], none, List.all_eq_true.1 rfl, by decide, List.forall_mem_nil _, by decide⟩
  have hover : Chunked.Overruns buffer.length Text.maxWord buffer :=
    ⟨[], line, [88], rfl, by decide, by decide, by decide⟩
  refine ⟨rfl, ?_⟩
  exact take?_chunked_eq_none_iff.2 ((Chunked.decode?_eq_none_iff (by decide)).2 hover)

end Framing

end Hypertext
