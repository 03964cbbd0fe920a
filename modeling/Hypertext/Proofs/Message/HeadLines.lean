/-
The lines of a head. Names and values are written as they are, so a head falls into the lines that it was written as, up
to its first empty line, exactly if no line feed is in them. A line feed in a value ends its line early: what follows it
is read as a field of its own, or as the end of the head.
-/
import Hypertext.Proofs.Client.RequestRoundTrip
import Hypertext.Proofs.Client.ResponseRoundTrip
import Mathlib.Algebra.GroupWithZero.Nat

namespace Hypertext

namespace Head

/-! ## Lines -/

/-- A line without the carriage return before its line feed. -/
def dropReturn (line : Bytes) : Bytes := if line.getLast? = some 13 then line.dropLast else line

/-- The lines that are ended: what stands before each line feed, with or without a carriage return. -/
def endedLines (b : Bytes) : List Bytes := ((b.splitOn 10).dropLast).map dropReturn

/-- Lines as they are written. -/
def written (lines : List Bytes) : Bytes := lines.flatMap (· ++ Bytes.crlf)

theorem endedLines_append (line rest : Bytes) (h : 10 ∉ line) :
    endedLines (line ++ Bytes.crlf ++ rest) = line :: endedLines rest := by
  have hline : 10 ∉ line ++ [13] := by simpa using h
  have hbytes : line ++ Bytes.crlf ++ rest = (line ++ [13]) ++ 10 :: rest := by simp [Bytes.crlf]
  have hreturn : dropReturn (line ++ [13]) = line := by simp [dropReturn]
  rw [endedLines, hbytes, List.splitOn_append_cons_self, List.splitOn_eq_singleton hline, List.singleton_append,
    List.dropLast_cons_of_ne_nil (List.splitOn_ne_nil 10 rest), List.map_cons, hreturn, endedLines]

theorem length_splitOn {α : Type} [BEq α] [LawfulBEq α] (a : α) (xs : List α) :
    (xs.splitOn a).length = xs.count a + 1 := by
  induction xs with
  | nil => rfl
  | cons x xs ih =>
    rw [List.splitOn_cons_eq_if_modifyHead]
    by_cases hx : x = a
    · subst hx
      simp [ih]
    · simp [hx, ih]

theorem length_endedLines (b : Bytes) : (endedLines b).length = b.count 10 := by
  rw [endedLines, List.length_map, List.length_dropLast, length_splitOn, Nat.add_sub_cancel]

/-- Lines are read as they were written if there is no line feed in them. -/
theorem endedLines_written : ∀ {lines : List Bytes}, (∀ line ∈ lines, 10 ∉ line) → endedLines (written lines) = lines
  | [], _ => rfl
  | line :: lines, h => by
    rw [written, List.flatMap_cons, endedLines_append line _ (h line List.mem_cons_self)]
    exact congrArg _ (endedLines_written fun l hl => h l (List.mem_cons_of_mem _ hl))

/-- Each line feed in a line makes one line more. -/
theorem length_endedLines_written (lines : List Bytes) :
    (endedLines (written lines)).length = lines.length + (lines.map (·.count 10)).sum := by
  rw [length_endedLines]
  induction lines with
  | nil => rfl
  | cons line lines ih =>
    have hend : Bytes.crlf.count 10 = 1 := rfl
    rw [written, List.flatMap_cons, List.count_append, List.count_append, hend, List.map_cons, List.sum_cons,
      List.length_cons]
    rw [written] at ih
    omega

theorem length_endedLines_written_iff {lines : List Bytes} :
    (endedLines (written lines)).length = lines.length ↔ ∀ line ∈ lines, 10 ∉ line := by
  have hsum : (lines.map (·.count 10)).sum = 0 ↔ ∀ line ∈ lines, 10 ∉ line := by
    rw [List.sum_eq_zero_iff_forall_eq_nat, List.forall_mem_map]
    simp only [List.count_eq_zero]
  rw [length_endedLines_written, ← hsum]
  omega

/-! ## Heads -/

/-- The line of a field. -/
def fieldLine (e : String × String) : Bytes := Bytes.ofText e.1 ++ 58 :: 32 :: Bytes.ofText e.2

/-- A name and a value without line feeds. -/
def IsUnbroken (e : String × String) : Prop := 10 ∉ Bytes.ofText e.1 ∧ 10 ∉ Bytes.ofText e.2

instance (e : String × String) : Decidable (IsUnbroken e) := inferInstanceAs (Decidable (_ ∧ _))

/-- The lines of a head with this first line and these fields. -/
def headLines (start : Bytes) (entries : List (String × String)) : List Bytes := start :: (entries.map fieldLine ++ [[]])

/-- A head has one line for each field, after the first line, and its first empty line is the last one. -/
structure IsLined (head start : Bytes) (entries : List (String × String)) : Prop where
  lines : endedLines head = headLines start entries
  filled : ∀ line ∈ start :: entries.map fieldLine, line ≠ []
  ended : head.getLast? = some 10

variable {start : Bytes} {entries : List (String × String)}

theorem written_headLines (start : Bytes) (entries : List (String × String)) :
    written (headLines start entries) = start ++ Bytes.crlf ++ (entries.flatMap lineOf ++ Bytes.crlf) := by
  have hfield : ∀ e, fieldLine e ++ Bytes.crlf = lineOf e := fun e => by simp [fieldLine, lineOf]
  rw [written, headLines, List.flatMap_cons, List.flatMap_append, List.flatMap_map, List.flatMap_singleton]
  simp only [hfield, List.nil_append]

theorem IsUnbroken.of_read {e : String × String} (h : IsToken e.1 ∧ IsFieldText e.2) : IsUnbroken e := by
  have hvalue : isValueByte 10 = false := rfl
  constructor
  · exact fun hfeed => (isTokenByte_ne_newline 10 (h.1.bytes 10 hfeed)).2 rfl
  · intro hfeed
    have hten := h.2.bytes 10 hfeed
    rw [hvalue] at hten
    cases hten

theorem headLines_unbroken_iff :
    (∀ line ∈ headLines start entries, 10 ∉ line) ↔ 10 ∉ start ∧ ∀ e ∈ entries, IsUnbroken e := by
  have hfield : ∀ e, 10 ∉ fieldLine e ↔ IsUnbroken e := fun e => by simp [fieldLine, IsUnbroken]
  simp only [headLines, List.forall_mem_cons, List.forall_mem_append, List.forall_mem_map, hfield]
  simp

/-- A head has as many lines as were written exactly if no line feed is in its first line, its names and its values. -/
theorem length_head_iff :
    (endedLines (written (headLines start entries))).length = entries.length + 2 ↔
      10 ∉ start ∧ ∀ e ∈ entries, IsUnbroken e := by
  rw [← headLines_unbroken_iff, ← length_endedLines_written_iff]
  simp [headLines]

/-- These are the lines then that were written. -/
theorem isLined_written (hstart : start ≠ []) (hfeed : 10 ∉ start) (hentries : ∀ e ∈ entries, IsUnbroken e) :
    IsLined (written (headLines start entries)) start entries where
  lines := endedLines_written (headLines_unbroken_iff.2 ⟨hfeed, hentries⟩)
  filled := by
    intro line hline
    rcases List.mem_cons.1 hline with rfl | hline
    · exact hstart
    · obtain ⟨e, -, rfl⟩ := List.mem_map.1 hline
      simp [fieldLine]
  ended := by
    have hlast : Bytes.crlf.getLast? = some 10 := rfl
    rw [written_headLines, List.getLast?_append, List.getLast?_append, hlast]
    rfl

end Head

/-! ## Responses -/

namespace Response

/-- The first line of a response. -/
def startLine (s : Status) : Bytes := Bytes.ofText s!"HTTP/1.1 {s.text}"

theorem statusLine_eq (s : Status) : Head.statusLine s = startLine s ++ Bytes.crlf := by
  cases s <;> rfl

theorem startLine_unbroken (s : Status) : startLine s ≠ [] ∧ 10 ∉ startLine s := by
  cases s <;> decide

theorem head_written (r : Response) :
    Bytes.ofText r.head = Head.written (Head.headLines (startLine r.status) r.lines) := by
  rw [ofText_head, statusLine_eq, Head.written_headLines]

/-- Only the fields of a handler can break their lines. -/
theorem lines_unbroken_iff (r : Response) :
    (∀ e ∈ r.lines, Head.IsUnbroken e) ↔ ∀ e ∈ r.ownFields, Head.IsUnbroken e := by
  rw [lines, List.forall_mem_append, and_iff_left_iff_imp]
  exact fun _ e he => .of_read (r.addedFields_read e he)

end Response

/-! ## Requests -/

namespace Outgoing

variable {o : Outgoing} {userAgent : String}

/-- The first line of a request. -/
def startLine (o : Outgoing) : Bytes := Bytes.ofText s!"{o.method.text} {requestTarget o.url} HTTP/1.1"

/-- The lines of a request. -/
def lines (userAgent : String) (o : Outgoing) : List (String × String) := o.ownFields ++ o.filledFields userAgent

/-- The head of a request. -/
def headBytes (userAgent : String) (o : Outgoing) : Bytes :=
  Head.written (Head.headLines o.startLine (o.lines userAgent))

/-- What a caller gives for the head of a request has no line feeds. -/
structure IsUnbroken (userAgent : String) (o : Outgoing) : Prop where
  method : 10 ∉ Bytes.ofText o.method.text
  fields : ∀ e ∈ o.ownFields, Head.IsUnbroken e
  agent : o.headers.contains "User-Agent" = false → 10 ∉ Bytes.ofText userAgent

theorem startLine_eq (o : Outgoing) : o.startLine =
    Bytes.ofText o.method.text ++ 32 :: (Bytes.ofText (requestTarget o.url) ++ 32 :: Bytes.ofText "HTTP/1.1") := by
  have hspace : Bytes.ofText " " = [32] := by decide
  have hversion : Bytes.ofText " HTTP/1.1" = 32 :: Bytes.ofText "HTTP/1.1" := by decide
  show Bytes.ofText (o.method.text ++ " " ++ requestTarget o.url ++ " HTTP/1.1") = _
  rw [Bytes.ofText_append, Bytes.ofText_append, Bytes.ofText_append, hspace, hversion]
  simp only [List.append_assoc, List.cons_append, List.nil_append]

theorem encode_head (userAgent : String) (o : Outgoing) : o.encode userAgent = o.headBytes userAgent ++ o.body := by
  rw [encode_eq, headBytes, Head.written_headLines, startLine_eq, Head.requestLine, lines]
  simp only [List.append_assoc, List.cons_append]

theorem startLine_unbroken_iff (hvisible : o.url.IsVisible) : 10 ∉ o.startLine ↔ 10 ∉ Bytes.ofText o.method.text := by
  have htarget : 10 ∉ Bytes.ofText (requestTarget o.url) := by
    intro hfeed
    have hten : Head.isTargetByte 10 = true := (isTarget_requestTarget hvisible).bytes 10 hfeed
    cases hten
  have hversion : 10 ∉ Bytes.ofText "HTTP/1.1" := by decide
  simp [startLine_eq, htarget, hversion]

theorem filledFields_unbroken_iff (hhost : IsFieldText o.target.authority) :
    (∀ e ∈ o.filledFields userAgent, Head.IsUnbroken e) ↔
      (o.headers.contains "User-Agent" = false → 10 ∉ Bytes.ofText userAgent) := by
  constructor
  · intro h hnone
    have hagent : ("User-Agent", userAgent) ∈ o.filledFields userAgent := by
      have hmissing : ("User-Agent", userAgent) ∈ missing "User-Agent" userAgent o.headers := by
        rw [missing, if_neg (by simp [hnone])]
        exact List.mem_singleton_self _
      exact List.mem_append_left _ (List.mem_append_right _ (List.mem_append_left _ hmissing))
    exact (h _ hagent).2
  · intro h e he
    rcases List.mem_append.1 he with he | he
    · rcases mem_defaultFields he with rfl | ⟨hnone, rfl⟩ | rfl
      · exact .of_read ⟨(by decide : IsToken "Host"), hhost⟩
      · exact ⟨(by decide : 10 ∉ Bytes.ofText "User-Agent"), h hnone⟩
      · decide
    · unfold lengthFields at he
      split at he
      · rw [List.mem_singleton.1 he]
        exact .of_read ⟨(by decide : IsToken "Content-Length"), isFieldText_toString _⟩
      · cases he

/-- Only what a caller gives can break the lines of a request: nothing of a URL can. -/
theorem unbroken_iff {text : String} (hurl : Target.parse text = .ok (o.url, o.target)) :
    (10 ∉ o.startLine ∧ ∀ e ∈ o.lines userAgent, Head.IsUnbroken e) ↔ o.IsUnbroken userAgent := by
  obtain ⟨hvisible, hhost⟩ := Target.visible_of_parse hurl
  have hauthority : IsFieldText o.target.authority :=
    isFieldText_of_all (Target.all_authority (hhost ▸ hvisible.host))
  rw [startLine_unbroken_iff hvisible, lines, List.forall_mem_append, filledFields_unbroken_iff hauthority]
  exact ⟨fun ⟨h1, h2, h3⟩ => ⟨h1, h2, h3⟩, fun ⟨h1, h2, h3⟩ => ⟨h1, h2, h3⟩⟩

theorem startLine_ne_nil (o : Outgoing) : o.startLine ≠ [] := by
  rw [startLine_eq]
  simp

end Outgoing

/-! ## Both -/

namespace Head

/-- The head of a response has a line for each field, and no more than the first line and an empty line besides,
exactly if there are no line feeds in the names and values that a handler has set; the empty line is then the first one.
The same holds of a request for what its caller has given: the name of the method, the fields, and the name of the
client where it is filled in. -/
theorem isLined_iff :
    (∀ (r : Response) (toHead : Bool), r.encode toHead = Bytes.ofText r.head ++ r.wireBody toHead ∧
      ((endedLines (Bytes.ofText r.head)).length = r.lines.length + 2 ↔ ∀ e ∈ r.ownFields, IsUnbroken e) ∧
      ((∀ e ∈ r.ownFields, IsUnbroken e) → IsLined (Bytes.ofText r.head) (Response.startLine r.status) r.lines)) ∧
    ∀ (o : Outgoing) (userAgent text : String), Target.parse text = .ok (o.url, o.target) →
      o.encode userAgent = o.headBytes userAgent ++ o.body ∧
      ((endedLines (o.headBytes userAgent)).length = (o.lines userAgent).length + 2 ↔ o.IsUnbroken userAgent) ∧
      (o.IsUnbroken userAgent → IsLined (o.headBytes userAgent) o.startLine (o.lines userAgent)) := by
  constructor
  · intro r toHead
    obtain ⟨hstart, hfeed⟩ := Response.startLine_unbroken r.status
    refine ⟨rfl, ?_, fun hown => ?_⟩
    · rw [Response.head_written, length_head_iff, r.lines_unbroken_iff, and_iff_right hfeed]
    · rw [Response.head_written]
      exact isLined_written hstart hfeed (r.lines_unbroken_iff.2 hown)
  · intro o userAgent text hurl
    refine ⟨o.encode_head userAgent, ?_, fun hown => ?_⟩
    · rw [Outgoing.headBytes, length_head_iff, Outgoing.unbroken_iff hurl]
    · obtain ⟨hfeed, hfields⟩ := (Outgoing.unbroken_iff hurl).2 hown
      exact isLined_written o.startLine_ne_nil hfeed hfields

theorem isLined_mislabelled :
    IsLined (Outgoing.mislabelled.headBytes ClientConfig.default.userAgent) Outgoing.mislabelled.startLine
      (Outgoing.mislabelled.lines ClientConfig.default.userAgent) := by
  have hurl : Target.parse "http://localhost:8080/users/42?x=1" =
      .ok (Outgoing.mislabelled.url, Outgoing.mislabelled.target) := rfl
  exact (isLined_iff.2 _ _ _ hurl).2.2 ⟨by decide, by decide, fun _ => by decide⟩

/-- A response with a value that has been copied from somewhere. -/
def copied : Response := (Response.new .ok).withHeader "X-Name" "a\r\nSet-Cookie: b=1"

/-- What follows a line feed in the value is read as a field. -/
theorem copied_sets_cookie :
    (∀ e ∈ copied.lines, e.1 ≠ "Set-Cookie") ∧
    endedLines (Bytes.ofText copied.head) =
      ["HTTP/1.1 200 OK", "X-Name: a", "Set-Cookie: b=1", "Connection: keep-alive", "Content-Length: 0", ""].map
        Bytes.ofText ∧
    ¬ IsLined (Bytes.ofText copied.head) (Response.startLine .ok) copied.lines := by
  have hlines : endedLines (Bytes.ofText copied.head) =
      ["HTTP/1.1 200 OK", "X-Name: a", "Set-Cookie: b=1", "Connection: keep-alive", "Content-Length: 0", ""].map
        Bytes.ofText := by decide +kernel
  refine ⟨by decide, hlines, fun h => ?_⟩
  have hlength := congrArg List.length (hlines.symm.trans h.lines)
  exact absurd hlength (by decide)

end Head

end Hypertext
