/-
Heads of responses as they are written and read: the status and all lines come through, and the body that follows is
framed by the length that was written.
-/
import Hypertext.Client.Incoming
import Hypertext.Message.Response
import Hypertext.Proofs.Message.FieldText

namespace Hypertext

namespace Head

/-! ## Status lines -/

/-- The bytes of the first line of a response. -/
def statusLine (s : Status) : Bytes :=
  Bytes.ofText "HTTP/1.1" ++ 32 :: (Bytes.ofText (toString s.code) ++ 32 :: (Bytes.ofText s.reason ++ Bytes.crlf))

theorem statusCode_append (s : Status) (rest : Bytes) :
    statusCode (Bytes.ofText (toString s.code) ++ rest) = .done s.code rest := by
  cases s <;> rfl

theorem isValueByte_of_reason (s : Status) : ∀ b ∈ Bytes.ofText s.reason, isValueByte b = true := by
  refine List.all_eq_true.1 ?_
  cases s <;> decide

theorem reason_append (s : Status) (rest : Bytes) :
    reason (32 :: (Bytes.ofText s.reason ++ (Bytes.crlf ++ rest))) = .done () rest := by
  -- the space before the phrase is only looked at, and taken with the phrase
  have hrun : (Scanner.span isValueByte : Reader Bytes) ((32 :: Bytes.ofText s.reason) ++ 13 :: 10 :: rest) =
      .done (32 :: Bytes.ofText s.reason) (13 :: 10 :: rest) := by
    refine Scanner.span_append (fun b hb => ?_) rfl
    rcases List.mem_cons.1 hb with rfl | hb
    · rfl
    · exact isValueByte_of_reason s b hb
  have hpeek : (Scanner.peek : Reader UInt8) (32 :: (Bytes.ofText s.reason ++ (Bytes.crlf ++ rest))) =
      .done 32 ((32 :: Bytes.ofText s.reason) ++ 13 :: 10 :: rest) := rfl
  rw [reason, Scanner.bind_of_done hpeek, if_pos (beq_self_eq_true _), Scanner.bind_of_done hrun]
  rfl

/-- A head that is written is read with its status and all its fields. -/
theorem response_append (s : Status) {entries : List (String × String)} (hcount : entries.length ≤ maxFields)
    (hentries : ∀ e ∈ entries, IsToken e.1 ∧ IsFieldText e.2) (rest : Bytes) :
    response (statusLine s ++ (entries.flatMap lineOf ++ (Bytes.crlf ++ rest))) =
      .done ⟨.http11, s.code, entries.map fun e => ⟨e.1, Bytes.ofText e.2⟩⟩ rest := by
  have hspace : ∀ later : Bytes, (Scanner.byte (· == 32) .version : Reader UInt8) (32 :: later) = .done 32 later :=
    fun _ => Scanner.byte_of_pos rfl
  have hskip : skipEmptyLines (statusLine s ++ (entries.flatMap lineOf ++ (Bytes.crlf ++ rest))) =
      .done () (statusLine s ++ (entries.flatMap lineOf ++ (Bytes.crlf ++ rest))) := rfl
  rw [response, Scanner.bind_of_done hskip]
  simp only [statusLine, List.append_assoc, List.cons_append]
  rw [Scanner.bind_of_done (version_append _), Scanner.bind_of_done (hspace _),
    Scanner.bind_of_done (statusCode_append s _), Scanner.bind_of_done (reason_append s _),
    Scanner.bind_of_done (fields_lines hcount hentries rest)]
  rfl

end Head

/-! ## Fields of a response -/

namespace Response

/-- The fields of a handler that are sent: the length and the connection option are the response's own. -/
def ownFields (r : Response) : List (String × String) :=
  r.headers.entries.filter fun e => !Text.sameName e.1 "connection" && !Text.sameName e.1 "content-length"

/-- The type of a body for which the handler has named none. -/
def typeFields (r : Response) : List (String × String) :=
  if r.sentBody.isEmpty || r.headers.contains "content-type" then []
  else [("Content-Type", "text/plain; charset=utf-8")]

/-- The connection option. -/
def option (r : Response) : String := if r.keepAlive then "keep-alive" else "close"

/-- The length, if the status allows a body. -/
def lengthFields (r : Response) : List (String × String) :=
  if r.status.forbidsBody then [] else [("Content-Length", toString r.sentBody.length)]

/-- The fields of all header lines. -/
def lines (r : Response) : List (String × String) :=
  r.ownFields ++ (r.typeFields ++ (("Connection", r.option) :: r.lengthFields))

variable {r : Response}

theorem sentHeaders_entries (r : Response) :
    r.sentHeaders.entries = r.ownFields ++ (r.typeFields ++ [("Connection", r.option)]) := by
  have htype : ∀ e ∈ r.typeFields,
      (!Text.sameName e.1 "connection" && !Text.sameName e.1 "content-length") = true := by
    unfold typeFields
    split
    · simp
    · intro e he
      rw [List.mem_singleton.1 he]
      decide
  have htyped : (if r.sentBody.isEmpty || r.headers.contains "content-type" then r.headers
      else r.headers.add "Content-Type" "text/plain; charset=utf-8").entries = r.headers.entries ++ r.typeFields := by
    unfold typeFields
    split <;> simp [Headers.add]
  have hname : ∀ a : String, Text.sameName a "Connection" = Text.sameName a "connection" :=
    Text.sameName_congr (by decide)
  rw [sentHeaders, Headers.set, Headers.add, Headers.remove, Headers.remove, htyped, List.filter_filter]
  simp only [hname]
  rw [List.filter_append, List.filter_eq_self.2 htype, List.append_assoc]
  rfl

theorem ofText_head (r : Response) :
    Bytes.ofText r.head = Head.statusLine r.status ++ (r.lines.flatMap Head.lineOf ++ Bytes.crlf) := by
  have hend : Bytes.ofText "\r\n" = Bytes.crlf := by decide
  have hstart : Bytes.ofText "HTTP/1.1 " = Bytes.ofText "HTTP/1.1" ++ [32] := by decide
  have hspace : Bytes.ofText " " = [32] := by decide
  have hname : Bytes.ofText "Content-Length: " = Bytes.ofText "Content-Length" ++ [58, 32] := by decide
  have hlength : Bytes.ofText (if r.status.forbidsBody then ""
      else "Content-Length: " ++ toString r.sentBody.length ++ "\r\n") = r.lengthFields.flatMap Head.lineOf := by
    unfold lengthFields
    split
    · rfl
    · rw [Bytes.ofText_append, Bytes.ofText_append, hname, hend, List.flatMap_singleton, Head.lineOf]
      simp only [List.append_assoc, List.cons_append, List.nil_append]
  have hstatus : Bytes.ofText r.status.text =
      Bytes.ofText (toString r.status.code) ++ 32 :: Bytes.ofText r.status.reason := by
    show Bytes.ofText (toString r.status.code ++ " " ++ r.status.reason) = _
    rw [Bytes.ofText_append, Bytes.ofText_append, hspace, List.append_assoc]
    rfl
  have hhead : r.head = "HTTP/1.1 " ++ r.status.text ++ "\r\n" ++ r.sentHeaders.text ++
      (if r.status.forbidsBody then "" else "Content-Length: " ++ toString r.sentBody.length ++ "\r\n") ++ "\r\n" := rfl
  have hlines : r.lines.flatMap Head.lineOf =
      r.sentHeaders.entries.flatMap Head.lineOf ++ r.lengthFields.flatMap Head.lineOf := by
    rw [sentHeaders_entries, lines, ← List.flatMap_append]
    simp only [List.append_assoc, List.cons_append, List.nil_append]
  rw [hhead, Bytes.ofText_append, Bytes.ofText_append, Bytes.ofText_append, Bytes.ofText_append, Bytes.ofText_append,
    hlength, hstatus, hend, hstart, Headers.ofText_text, hlines, Head.statusLine]
  simp only [List.append_assoc, List.cons_append, List.nil_append]

/-! ## What is read of a response -/

/-- The names and values of a response come through. -/
def HasFields (r : Response) : Prop := ∀ e ∈ r.headers.entries, IsToken e.1 ∧ IsFieldText e.2

instance (r : Response) : Decidable r.HasFields :=
  inferInstanceAs (Decidable (∀ e ∈ r.headers.entries, IsToken e.1 ∧ IsFieldText e.2))

/-- The fields that are sent beside those of a handler. -/
theorem addedFields_read (r : Response) : ∀ e ∈ r.typeFields ++ (("Connection", r.option) :: r.lengthFields),
    IsToken e.1 ∧ IsFieldText e.2 := by
  intro e he
  rw [List.mem_append, List.mem_cons] at he
  rcases he with he | rfl | he
  · unfold typeFields at he
    split at he
    · cases he
    · rw [List.mem_singleton.1 he]
      decide
  · refine ⟨(by decide : IsToken "Connection"), ?_⟩
    show IsFieldText r.option
    unfold option
    split <;> decide
  · unfold lengthFields at he
    split at he
    · cases he
    · rw [List.mem_singleton.1 he]
      exact ⟨(by decide : IsToken "Content-Length"), isFieldText_toString _⟩

theorem HasFields.lines (h : r.HasFields) : ∀ e ∈ r.lines, IsToken e.1 ∧ IsFieldText e.2 := by
  intro e he
  rcases List.mem_append.1 he with he | he
  · exact h e (List.mem_filter.1 he).1
  · exact r.addedFields_read e he

/-- The head of a response is read as it was meant. -/
theorem HasFields.reads (h : r.HasFields) (hcount : r.lines.length ≤ Head.maxFields) (rest : Bytes) :
    Head.response (Bytes.ofText r.head ++ rest) =
      .done ⟨.http11, r.status.code, r.lines.map fun e => ⟨e.1, Bytes.ofText e.2⟩⟩ rest := by
  rw [ofText_head, List.append_assoc, List.append_assoc]
  exact Head.response_append r.status hcount h.lines rest

theorem getAll_lines (n : String) (r : Response) : Headers.getAll n ⟨r.lines⟩ =
    Headers.getAll n ⟨r.ownFields⟩ ++ (Headers.getAll n ⟨r.typeFields⟩ ++
      (Headers.getAll n ⟨[("Connection", r.option)]⟩ ++ Headers.getAll n ⟨r.lengthFields⟩)) := by
  rw [← Headers.getAll_append, ← Headers.getAll_append, ← Headers.getAll_append]
  rfl

/-- A handler's fields of a name that is not the response's own are sent as they are. -/
theorem getAll_ownFields {n : String} (hc : Text.sameName n "connection" = false)
    (hl : Text.sameName n "content-length" = false) (r : Response) :
    Headers.getAll n ⟨r.ownFields⟩ = r.headers.getAll n := by
  have hfields : (⟨r.ownFields⟩ : Headers) = (r.headers.remove "content-length").remove "connection" := by
    rw [Headers.remove, Headers.remove, List.filter_filter]
    rfl
  rw [hfields, Headers.getAll_remove_of_ne hc, Headers.getAll_remove_of_ne hl]

theorem getAll_typeFields {n : String} (h : Text.sameName "Content-Type" n = false) (r : Response) :
    Headers.getAll n ⟨r.typeFields⟩ = [] := by
  unfold typeFields
  split
  · rfl
  · rw [Headers.getAll_singleton, if_neg (by simp [h])]

theorem getAll_lengthFields {n : String} (h : Text.sameName "Content-Length" n = false) (r : Response) :
    Headers.getAll n ⟨r.lengthFields⟩ = [] := by
  unfold lengthFields
  split
  · rfl
  · rw [Headers.getAll_singleton, if_neg (by simp [h])]

/-- The lines of a name that only a handler gives. -/
theorem getAll_lines_of_own {n : String} (hc : Text.sameName n "connection" = false)
    (hl : Text.sameName n "content-length" = false) (ht : Text.sameName "Content-Type" n = false) (r : Response) :
    Headers.getAll n ⟨r.lines⟩ = r.headers.getAll n := by
  have hc' : Text.sameName "Connection" n = false := by
    rw [Text.sameName_comm, Text.sameName_congr (by decide : Text.sameName _ "connection" = true), hc]
  have hl' : Text.sameName "Content-Length" n = false := by
    rw [Text.sameName_comm, Text.sameName_congr (by decide : Text.sameName _ "content-length" = true), hl]
  rw [getAll_lines, getAll_ownFields hc hl, getAll_typeFields ht, getAll_lengthFields hl', Headers.getAll_singleton,
    if_neg (by simp [hc']), List.append_nil, List.append_nil, List.append_nil]

theorem getAll_connection (r : Response) : Headers.getAll "connection" ⟨r.lines⟩ = [r.option] := by
  have hown : Headers.getAll "connection" ⟨r.ownFields⟩ = [] := by
    refine Headers.getAll_filter_of_ne fun e he => ?_
    rw [Bool.and_eq_true, Bool.not_eq_true'] at he
    exact he.1
  rw [getAll_lines, hown, getAll_typeFields (by decide), getAll_lengthFields (by decide),
    Headers.getAll_singleton, if_pos (by decide)]
  rfl

theorem getAll_contentLength (r : Response) : Headers.getAll "content-length" ⟨r.lines⟩ =
    if r.status.forbidsBody then [] else [toString r.sentBody.length] := by
  have hown : Headers.getAll "content-length" ⟨r.ownFields⟩ = [] := by
    refine Headers.getAll_filter_of_ne fun e he => ?_
    rw [Bool.and_eq_true, Bool.not_eq_true', Bool.not_eq_true'] at he
    exact he.2
  rw [getAll_lines, hown, getAll_typeFields (by decide), Headers.getAll_singleton, if_neg (by decide),
    lengthFields]
  split
  · rfl
  · rw [Headers.getAll_singleton, if_pos (by decide)]
    rfl

/-- Only the status that is answered and the request decide whether what is announced counts. -/
theorem forResponse_code (s : Status) (toHead : Bool) (h : Headers) :
    Framing.forResponse s.code toHead h =
      if toHead || s.forbidsBody then .ok .empty else (Framing.announced h).map (·.getD .untilClose) := by
  have hcode : ((100 ≤ s.code && s.code < 200) || s.code == 204 || s.code == 304) = s.forbidsBody := by
    cases s <;> rfl
  rw [Framing.forResponse, ← hcode, Bool.or_assoc, Bool.or_assoc, Bool.or_assoc]

/-- The end of the body is found where it is. -/
theorem forResponse_lines (hplain : r.headers.contains "transfer-encoding" = false)
    (hlength : r.sentBody.length ≤ Text.maxWord) (toHead : Bool) :
    Framing.forResponse r.status.code toHead ⟨r.lines⟩ =
      .ok (if toHead || r.status.forbidsBody then .empty else .ofLength r.sentBody.length) := by
  have hcoding : Headers.contains "transfer-encoding" ⟨r.lines⟩ = false := by
    rw [Headers.contains_eq_false_iff, getAll_lines_of_own (by decide) (by decide) (by decide)]
    exact Headers.contains_eq_false_iff.1 hplain
  rw [forResponse_code]
  cases hf : toHead || r.status.forbidsBody with
  | true => rfl
  | false =>
    have hallowed : r.status.forbidsBody = false := (Bool.or_eq_false_iff.1 hf).2
    have hone : Headers.getAll "content-length" ⟨r.lines⟩ = [toString r.sentBody.length] := by
      rw [getAll_contentLength, hallowed]
      rfl
    rw [Framing.announced_of_length hcoding hone hlength, if_neg Bool.false_ne_true, if_neg Bool.false_ne_true]
    rfl

/-- The connection is kept by the one side when it is kept by the other. -/
theorem allowsReuse_of_connection {c : ClientResponse} (hversion : c.version = .http11)
    (h : c.headers.getAll "connection" = [r.option]) : c.allowsReuse = r.keepAlive := by
  have hkeeps : Version.http11.keepsAlive = true := rfl
  rw [ClientResponse.allowsReuse, Headers.hasToken_of_getAll h, hversion, hkeeps, Bool.true_or, Bool.and_true, option]
  cases r.keepAlive <;> decide

end Response

end Hypertext
