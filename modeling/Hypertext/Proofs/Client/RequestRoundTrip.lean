/-
What a client sends is what a server reads: the method, the path, the query and the fields come through, and the
server finds the end of the body where the client has put it, whatever the caller has said of its length.
-/
import Hypertext.Client.Outgoing
import Hypertext.Proofs.Message.Delimited
import Hypertext.Proofs.Message.RequestHead
import Hypertext.Proofs.Url.Visible

namespace Hypertext

namespace Outgoing

variable {o : Outgoing} {userAgent : String} {limit : Nat}

/-! ## Fields that are sent -/

/-- A field that is filled in where the caller has given none of its name. -/
def missing (name value : String) (h : Headers) : List (String × String) :=
  if h.contains name then [] else [(name, value)]

/-- The fields of the caller that are sent: the client itself says how the body ends. -/
def ownFields (o : Outgoing) : List (String × String) :=
  o.headers.entries.filter fun e => !Text.sameName e.1 "content-length" && !Text.sameName e.1 "transfer-encoding"

/-- The length, if it is announced. -/
def lengthFields (o : Outgoing) : List (String × String) :=
  if announcesLength o.method o.body then [("Content-Length", toString o.body.length)] else []

/-- The fields that are filled in, apart from the length. -/
def defaultFields (userAgent : String) (o : Outgoing) : List (String × String) :=
  missing "Host" o.target.authority o.headers ++ (missing "User-Agent" userAgent o.headers ++
    missing "Accept-Encoding" "gzip" o.headers)

/-- The fields that are filled in. -/
def filledFields (userAgent : String) (o : Outgoing) : List (String × String) :=
  o.defaultFields userAgent ++ o.lengthFields

theorem entries_addMissing (name value : String) (h : Headers) :
    (addMissing name value h).entries = h.entries ++ missing name value h := by
  unfold addMissing missing
  split
  · rw [List.append_nil]
  · rfl

/-- Filling in a field of one name does not matter for another. -/
theorem missing_addMissing {name other : String} (hne : Text.sameName other name = false) (value text : String)
    (h : Headers) : missing name value (addMissing other text h) = missing name value h := by
  have hcontains : (addMissing other text h).contains name = h.contains name := by
    unfold addMissing
    split
    · rfl
    · rw [Headers.contains, Headers.contains, Headers.add, List.any_append, List.any_cons, List.any_nil, hne]
      simp
  rw [missing, missing, hcontains]

theorem mem_missing {name value : String} {h : Headers} {e : String × String} (he : e ∈ missing name value h) :
    h.contains name = false ∧ e = (name, value) := by
  unfold missing at he
  split at he
  · cases he
  · next hnone => exact ⟨Bool.eq_false_iff.2 hnone, List.mem_singleton.1 he⟩

theorem mem_defaultFields {e : String × String} (he : e ∈ o.defaultFields userAgent) :
    e = ("Host", o.target.authority) ∨ o.headers.contains "User-Agent" = false ∧ e = ("User-Agent", userAgent) ∨
      e = ("Accept-Encoding", "gzip") := by
  rcases List.mem_append.1 he with he | he
  · exact .inl (mem_missing he).2
  · rcases List.mem_append.1 he with he | he
    · exact .inr (.inl (mem_missing he))
    · exact .inr (.inr (mem_missing he).2)

theorem defaultFields_unframed {e : String × String} (he : e ∈ o.defaultFields userAgent) :
    Text.sameName e.1 "content-length" = false ∧ Text.sameName e.1 "transfer-encoding" = false := by
  have hname : e.1 ∈ ["Host", "User-Agent", "Accept-Encoding"] := by
    rcases mem_defaultFields he with rfl | ⟨-, rfl⟩ | rfl <;> simp
  exact (by decide : ∀ name ∈ ["Host", "User-Agent", "Accept-Encoding"],
    Text.sameName name "content-length" = false ∧ Text.sameName name "transfer-encoding" = false) _ hname

theorem sentHeaders_entries (userAgent : String) (o : Outgoing) :
    (o.sentHeaders userAgent).entries = o.ownFields ++ o.filledFields userAgent := by
  have hfilled : (addMissing "Accept-Encoding" "gzip"
      (addMissing "User-Agent" userAgent (addMissing "Host" o.target.authority o.headers))).entries =
        o.headers.entries ++ o.defaultFields userAgent := by
    rw [entries_addMissing, missing_addMissing (by decide), missing_addMissing (by decide),
      entries_addMissing, missing_addMissing (by decide), entries_addMissing, defaultFields]
    simp only [List.append_assoc]
  have hkept : ∀ e ∈ o.defaultFields userAgent,
      (!Text.sameName e.1 "content-length" && !Text.sameName e.1 "transfer-encoding") = true := by
    intro e he
    obtain ⟨hl, ht⟩ := defaultFields_unframed he
    rw [hl, ht]
    rfl
  have hplain : (((addMissing "Accept-Encoding" "gzip" (addMissing "User-Agent" userAgent
      (addMissing "Host" o.target.authority o.headers))).remove "transfer-encoding").remove "content-length").entries =
        o.ownFields ++ o.defaultFields userAgent := by
    rw [Headers.remove, Headers.remove, hfilled, List.filter_filter, List.filter_append, List.filter_eq_self.2 hkept,
      ownFields]
  unfold sentHeaders filledFields lengthFields
  dsimp only
  split
  · rw [Headers.add, hplain, List.append_assoc]
  · rw [hplain, List.append_nil]

theorem length_missing_le (name value : String) (h : Headers) : (missing name value h).length ≤ 1 := by
  unfold missing
  split <;> simp

/-- At most four fields are filled in. -/
theorem length_entries_le (h : o.headers.size ≤ 60) :
    (o.ownFields ++ o.filledFields userAgent).length ≤ Head.maxFields := by
  have hown : o.ownFields.length ≤ 60 := Nat.le_trans (List.length_filter_le _ _) h
  have hhost := length_missing_le "Host" o.target.authority o.headers
  have hagent := length_missing_le "User-Agent" userAgent o.headers
  have hcoding := length_missing_le "Accept-Encoding" "gzip" o.headers
  have hlength : o.lengthFields.length ≤ 1 := by
    unfold lengthFields
    split <;> simp
  have hmax : Head.maxFields = 64 := rfl
  rw [filledFields, defaultFields, List.length_append, List.length_append, List.length_append, List.length_append]
  omega

theorem fields_entries (hown : ∀ e ∈ o.headers.entries, IsToken e.1 ∧ IsFieldText e.2)
    (hhost : IsFieldText o.target.authority)
    (hagent : o.headers.contains "User-Agent" = false → IsFieldText userAgent) :
    ∀ e ∈ o.ownFields ++ o.filledFields userAgent, IsToken e.1 ∧ IsFieldText e.2 := by
  intro e he
  rcases List.mem_append.1 he with he | he
  · exact hown e (List.mem_filter.1 he).1
  · rcases List.mem_append.1 he with he | he
    · rcases mem_defaultFields he with rfl | ⟨hnone, rfl⟩ | rfl
      · exact ⟨(by decide : IsToken "Host"), hhost⟩
      · exact ⟨(by decide : IsToken "User-Agent"), hagent hnone⟩
      · decide
    · unfold lengthFields at he
      split at he
      · rw [List.mem_singleton.1 he]
        exact ⟨(by decide : IsToken "Content-Length"), isFieldText_toString _⟩
      · cases he

/-! ## The end of the body -/

theorem getAll_unframed {n : String} (hn : n = "content-length" ∨ n = "transfer-encoding") :
    Headers.getAll n ⟨o.ownFields ++ o.defaultFields userAgent⟩ = [] := by
  have hown : Headers.getAll n ⟨o.ownFields⟩ = [] := by
    refine Headers.getAll_filter_of_ne fun e he => ?_
    rw [Bool.and_eq_true, Bool.not_eq_true', Bool.not_eq_true'] at he
    rcases hn with rfl | rfl
    · exact he.1
    · exact he.2
  have hdefault : Headers.getAll n ⟨o.defaultFields userAgent⟩ = [] := by
    rw [Headers.getAll, List.map_eq_nil_iff, List.filter_eq_nil_iff]
    intro e he
    obtain ⟨hl, ht⟩ := defaultFields_unframed he
    rcases hn with rfl | rfl
    · rw [hl]
      exact Bool.false_ne_true
    · rw [ht]
      exact Bool.false_ne_true
  rw [Headers.getAll_append, hown, hdefault]
  rfl

/-- The server takes the length of the body for its end, and no body where none is announced. -/
theorem forRequest_entries (hbody : o.body.length ≤ Text.maxWord) :
    Framing.forRequest ⟨o.ownFields ++ o.filledFields userAgent⟩ = .ok (.ofLength o.body.length) := by
  have hplain : Headers.contains "transfer-encoding" ⟨o.ownFields ++ o.filledFields userAgent⟩ = false := by
    rw [Headers.contains_eq_false_iff, filledFields, ← List.append_assoc, Headers.getAll_append,
      getAll_unframed (.inr rfl), lengthFields]
    split
    · rw [Headers.getAll_singleton, if_neg (by decide)]
      rfl
    · rfl
  have hlength : Headers.getAll "content-length" ⟨o.ownFields ++ o.filledFields userAgent⟩ =
      if announcesLength o.method o.body then [toString o.body.length] else [] := by
    rw [filledFields, ← List.append_assoc, Headers.getAll_append, getAll_unframed (.inl rfl), lengthFields]
    split
    · rw [Headers.getAll_singleton, if_pos (by decide)]
      rfl
    · rfl
  rw [Framing.forRequest]
  cases hannounced : announcesLength o.method o.body with
  | true =>
    rw [hannounced] at hlength
    rw [Framing.announced_of_length hplain hlength hbody]
    rfl
  | false =>
    -- a body that is not announced is empty
    have hempty : o.body = [] := by
      rw [announcesLength, Bool.or_eq_false_iff, Bool.not_eq_false'] at hannounced
      exact List.isEmpty_iff.1 hannounced.1
    rw [hannounced] at hlength
    rw [Framing.announced, hplain, hlength, hempty]
    rfl

/-! ## The round trip -/

theorem isTarget_requestTarget {u : Url} (hu : u.IsVisible) : IsTarget (requestTarget u) := by
  obtain ⟨rest, habsolute⟩ := hu.absolute
  have hpath : Text.All Text.IsVisible u.path := hu.path.mono fun _ hc => hc.1
  have hmark : Text.All Text.IsVisible "?" := Url.all_singleton (c := '?') (by decide)
  have hall : Text.All Text.IsVisible (requestTarget u) := by
    unfold requestTarget
    split
    · next query hquery => exact (hpath.append hmark).append (hu.query query hquery)
    · exact hpath
  have hslash : Bytes.ofText u.path ≠ [] := by
    rw [habsolute, Bytes.ofText_append]
    exact fun h => absurd (List.append_eq_nil_iff.1 h).1 (by decide)
  refine ⟨?_, Head.isTargetByte_of_all hall⟩
  unfold requestTarget
  split
  · next query _ =>
    show Bytes.ofText (u.path ++ "?" ++ query) ≠ []
    rw [Bytes.ofText_append, Bytes.ofText_append, List.append_assoc]
    exact fun h => hslash (List.append_eq_nil_iff.1 h).1
  · exact hslash

theorem splitTarget_requestTarget {u : Url} (hu : u.IsVisible) :
    Request.splitTarget (requestTarget u) = (u.path, u.query) := by
  have hpath : ∀ c ∈ u.path.toList, c ≠ '?' := fun c hc => (hu.path c hc).2
  unfold requestTarget
  cases hquery : u.query with
  | none => exact Request.splitTarget_path hpath
  | some query => exact Request.splitTarget_query hpath query

theorem encode_eq (userAgent : String) (o : Outgoing) : o.encode userAgent =
    Head.requestLine o.method.text (requestTarget o.url) ++
      ((o.ownFields ++ o.filledFields userAgent).flatMap Head.lineOf ++ (Bytes.crlf ++ o.body)) := by
  have hspace : Bytes.ofText " " = [32] := by decide
  have hversion : Bytes.ofText " HTTP/1.1\r\n" = 32 :: (Bytes.ofText "HTTP/1.1" ++ Bytes.crlf) := by decide
  have hend : Bytes.ofText "\r\n" = Bytes.crlf := by decide
  have hhead : o.encode userAgent = Bytes.ofText (o.method.text ++ " " ++ requestTarget o.url ++ " HTTP/1.1\r\n" ++
      (o.sentHeaders userAgent).text ++ "\r\n") ++ o.body := rfl
  rw [hhead, Bytes.ofText_append, Bytes.ofText_append, Bytes.ofText_append, Bytes.ofText_append, Bytes.ofText_append,
    hspace, hversion, hend, Headers.ofText_text, sentHeaders_entries, Head.requestLine]
  simp only [List.append_assoc, List.cons_append, List.nil_append]

/-- A request comes through, whatever its method, its URL, its fields and its body are and whatever follows it. The
method that is read has the name of the one that was sent, and is that method if a name stands for it. -/
theorem parse_encode {text : String} (hurl : Target.parse text = .ok (o.url, o.target))
    (hmethod : IsToken o.method.text) (hfields : ∀ e ∈ o.headers.entries, IsToken e.1 ∧ IsFieldText e.2)
    (hcount : o.headers.size ≤ 60) (hagent : o.headers.contains "User-Agent" = false → IsFieldText userAgent)
    (hbody : o.body.length ≤ limit) (hlimit : limit ≤ Text.maxWord) (following : Bytes) :
    ∃ request : Request, Request.parse (o.encode userAgent ++ following) = .ok (request, o.body ++ following) ∧
      request.method.text = o.method.text ∧ (∀ name, o.method = .ofText name → request.method = o.method) ∧
      request.path = o.url.path ∧ request.query = o.url.query ∧ request.version = .http11 ∧
      request.headers.entries = o.ownFields ++ o.filledFields userAgent ∧
      ∃ framing, request.framing = .ok framing ∧
        framing.decode limit (o.body ++ following) = .ok (some (o.body, following)) := by
  obtain ⟨hvisible, hhost⟩ := Target.visible_of_parse hurl
  have hauthority : IsFieldText o.target.authority :=
    isFieldText_of_all (Target.all_authority (hhost ▸ hvisible.host))
  have hread := Head.request_append hmethod (isTarget_requestTarget hvisible) (length_entries_le hcount)
    (fields_entries hfields hauthority hagent) (o.body ++ following)
  have hsplit := splitTarget_requestTarget hvisible
  refine ⟨⟨.ofText o.method.text, o.url.path, o.url.query, .http11, ⟨o.ownFields ++ o.filledFields userAgent⟩, []⟩,
    ?_, Method.text_ofText _, fun name h => by rw [h, Method.text_ofText], rfl, rfl, rfl, rfl, .ofLength o.body.length,
    forRequest_entries (Nat.le_trans hbody hlimit), Framing.decode_ofLength hbody following⟩
  rw [encode_eq]
  simp only [List.append_assoc]
  rw [Request.parse, hread]
  simp only [Request.ofHead, Request.new, hsplit, Head.headers_lines]

/-- A request whose caller has named a length that is not the body's. -/
def mislabelled : Outgoing where
  method := .post
  url := ⟨"http", "localhost", some 8080, "/users/42", some "x=1"⟩
  target := ⟨"http", "localhost", 8080⟩
  headers := ⟨[("X-Kind", "list"), ("content-length", "999")]⟩
  body := [123, 125]

theorem parse_mislabelled : ∃ request : Request,
    Request.parse (mislabelled.encode ClientConfig.default.userAgent ++ [71]) = .ok (request, [123, 125, 71]) ∧
      request.method = .post ∧ request.path = "/users/42" ∧ request.query = some "x=1" ∧
      ∃ framing, request.framing = .ok framing ∧ framing.decode 1024 [123, 125, 71] = .ok (some ([123, 125], [71])) := by
  have hurl : Target.parse "http://localhost:8080/users/42?x=1" = .ok (mislabelled.url, mislabelled.target) := by rfl
  obtain ⟨request, hread, -, hmethod, hpath, hquery, -, -, hframing⟩ := parse_encode hurl
    (by decide : IsToken "POST") (by decide) (by decide)
    (fun _ => (by decide : IsFieldText ClientConfig.default.userAgent))
    (by decide : mislabelled.body.length ≤ 1024) (by decide) [71]
  exact ⟨request, hread, hmethod "POST" (by decide), hpath, hquery, hframing⟩

end Outgoing

end Hypertext
