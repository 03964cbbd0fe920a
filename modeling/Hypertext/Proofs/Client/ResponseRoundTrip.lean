/-
What a handler responds with is what a client receives: the status, the body and the handler's fields come through,
whether the body is compressed or left out, and the client takes the bytes of the response and no others.
-/
import Hypertext.Proofs.Client.Reception
import Hypertext.Proofs.Gzip.Bits
import Hypertext.Proofs.Message.ResponseHead
import Mathlib.Control.Monad.Basic

namespace Hypertext

open ResponseReader

/-! ## Compression -/

namespace Response

variable {r : Response} {limit : Nat} {encode : Bytes → Bytes}

/-- A response that is sent without a coding of its own, and whose names and values come through. -/
structure Transferable (r : Response) : Prop where
  fields : r.HasFields
  unchunked : r.headers.contains "transfer-encoding" = false
  uncoded : r.headers.contains "content-encoding" = false

/-- The response with its body compressed by an encoder. -/
def coded (encode : Bytes → Bytes) (r : Response) : Response :=
  { r with
    body := encode r.body
    headers := (r.headers.add "Content-Encoding" "gzip").add "Vary" "Accept-Encoding" }

theorem compressed_cases (acceptsGzip : Bool) (r : Response) (encode : Bytes → Bytes) :
    r.compressed acceptsGzip encode = r ∨
      r.compressed acceptsGzip encode = r.coded encode ∧ (encode r.body).length < r.body.length ∧
        r.status.forbidsBody = false := by
  unfold compressed
  split
  · exact .inl rfl
  · next hworth =>
    simp only [Bool.or_eq_true, not_or, Bool.not_eq_true] at hworth
    simp only []
    split
    · next hless => exact .inr ⟨rfl, hless, hworth.1.2⟩
    · exact .inl rfl

theorem compressed_status (acceptsGzip : Bool) (r : Response) (encode : Bytes → Bytes) :
    (r.compressed acceptsGzip encode).status = r.status := by
  rcases compressed_cases acceptsGzip r encode with h | ⟨h, -, -⟩ <;> rw [h]
  rfl

theorem length_sentBody_le (r : Response) : r.sentBody.length ≤ r.body.length := by
  unfold sentBody
  split <;> simp

theorem length_compressed_le (acceptsGzip : Bool) (r : Response) (encode : Bytes → Bytes) :
    (r.compressed acceptsGzip encode).sentBody.length ≤ r.body.length := by
  rcases compressed_cases acceptsGzip r encode with h | ⟨h, hless, -⟩ <;> rw [h]
  · exact r.length_sentBody_le
  · exact Nat.le_trans (r.coded encode).length_sentBody_le (Nat.le_of_lt hless)

theorem HasFields.compressed (h : r.HasFields) (acceptsGzip : Bool) (encode : Bytes → Bytes) :
    (r.compressed acceptsGzip encode).HasFields := by
  rcases compressed_cases acceptsGzip r encode with hr | ⟨hr, -, -⟩ <;> rw [hr]
  · exact h
  · have hcoding : IsToken "Content-Encoding" ∧ IsFieldText "gzip" := by decide
    have hvary : IsToken "Vary" ∧ IsFieldText "Accept-Encoding" := by decide
    intro e he
    rcases List.mem_append.1 he with he | he
    · rcases List.mem_append.1 he with he | he
      · exact h e he
      · rwa [List.mem_singleton.1 he]
    · rwa [List.mem_singleton.1 he]

theorem compressed_unchunked (h : r.headers.contains "transfer-encoding" = false) (acceptsGzip : Bool)
    (encode : Bytes → Bytes) : (r.compressed acceptsGzip encode).headers.contains "transfer-encoding" = false := by
  rcases compressed_cases acceptsGzip r encode with hr | ⟨hr, -, -⟩ <;> rw [hr]
  · exact h
  · rw [Headers.contains_eq_false_iff] at h ⊢
    rw [coded, Headers.getAll_add, Headers.getAll_add, h, if_neg (by decide), if_neg (by decide)]
    rfl

/-! ## Taking the coding off -/

/-- The bytes of the body that are sent. -/
def wireBody (toHead : Bool) (r : Response) : Bytes := if toHead then [] else r.sentBody

theorem encode_eq (toHead : Bool) (r : Response) : r.encode toHead = Bytes.ofText r.head ++ r.wireBody toHead := rfl

/-- The names of the fields that a server may add to those of a handler. -/
def addedNames : List String := ["Content-Encoding", "Vary", "Content-Type", "Connection", "Content-Length"]

theorem typeFields_named (r : Response) : ∀ e ∈ r.typeFields, e.1 ∈ addedNames := by
  intro e he
  unfold typeFields at he
  split at he
  · cases he
  · rw [List.mem_singleton.1 he]
    decide

theorem lengthFields_named (r : Response) : ∀ e ∈ r.lengthFields, e.1 ∈ addedNames := by
  intro e he
  unfold lengthFields at he
  split at he
  · cases he
  · rw [List.mem_singleton.1 he]
    exact (by decide : "Content-Length" ∈ addedNames)

/-- The fields are those of the handler, in their order, and after them such as the server adds. -/
def CarriedBy (r : Response) (h : Headers) : Prop :=
  ∃ added, h.entries = r.ownFields ++ added ∧ ∀ e ∈ added, e.1 ∈ addedNames

theorem carriedBy_lines (r : Response) : r.CarriedBy ⟨r.lines⟩ := by
  refine ⟨_, rfl, fun e he => ?_⟩
  rcases List.mem_append.1 he with he | he
  · exact r.typeFields_named e he
  · rcases List.mem_cons.1 he with rfl | he
    · exact (by decide : "Connection" ∈ addedNames)
    · exact r.lengthFields_named e he

/-- Compression adds two fields after those of the handler. -/
theorem ownFields_coded (r : Response) (encode : Bytes → Bytes) :
    (r.coded encode).ownFields = r.ownFields ++ [("Content-Encoding", "gzip"), ("Vary", "Accept-Encoding")] := by
  have hadded : [("Content-Encoding", "gzip"), ("Vary", "Accept-Encoding")].filter
      (fun e => !Text.sameName e.1 "connection" && !Text.sameName e.1 "content-length") =
        [("Content-Encoding", "gzip"), ("Vary", "Accept-Encoding")] := by decide
  have hall : (r.coded encode).headers.entries =
      r.headers.entries ++ [("Content-Encoding", "gzip"), ("Vary", "Accept-Encoding")] := List.append_assoc ..
  rw [ownFields, hall, List.filter_append, hadded, ownFields]

theorem carriedBy_lines_coded (r : Response) (encode : Bytes → Bytes) : r.CarriedBy ⟨(r.coded encode).lines⟩ := by
  obtain ⟨added, hlines, hnamed⟩ := (r.coded encode).carriedBy_lines
  refine ⟨[("Content-Encoding", "gzip"), ("Vary", "Accept-Encoding")] ++ added, ?_, fun e he => ?_⟩
  · rw [hlines, ownFields_coded, List.append_assoc]
  · rcases List.mem_append.1 he with he | he
    · exact (by decide : ∀ e ∈ [("Content-Encoding", "gzip"), ("Vary", "Accept-Encoding")],
        e.1 ∈ addedNames) e he
    · exact hnamed e he

/-- Dropping fields of a name that no field of the handler has leaves the handler's fields. -/
theorem CarriedBy.remove {h : Headers} (hr : r.CarriedBy h) {n : String}
    (hown : ∀ e ∈ r.ownFields, Text.sameName e.1 n = false) : r.CarriedBy (h.remove n) := by
  obtain ⟨added, hentries, hnamed⟩ := hr
  refine ⟨added.filter fun e => !Text.sameName e.1 n, ?_, fun e he => hnamed e (List.mem_filter.1 he).1⟩
  have hkept : r.ownFields.filter (fun e => !Text.sameName e.1 n) = r.ownFields :=
    List.filter_eq_self.2 fun e he => by rw [hown e he]; rfl
  rw [Headers.remove, hentries, List.filter_append, hkept]

theorem wireBody_eq (toHead : Bool) (r : Response) :
    r.wireBody toHead = if toHead || r.status.forbidsBody then [] else r.body := by
  unfold wireBody sentBody
  cases toHead <;> rfl

/-- A response that is sent as it is says nothing of gzip. -/
theorem isGzipEncoded_lines (h : r.headers.contains "content-encoding" = false) :
    Coding.isGzipEncoded ⟨r.lines⟩ = false := by
  have hnone : Headers.getAll "content-encoding" ⟨r.lines⟩ = [] := by
    rw [getAll_lines_of_own (by decide) (by decide) (by decide)]
    exact Headers.contains_eq_false_iff.1 h
  rw [Coding.isGzipEncoded, Headers.hasToken, Headers.hasToken, Headers.elements, hnone]
  rfl

theorem isGzipEncoded_lines_coded (h : r.headers.contains "content-encoding" = false) :
    Coding.isGzipEncoded ⟨(r.coded encode).lines⟩ = true := by
  have hone : Headers.getAll "content-encoding" ⟨(r.coded encode).lines⟩ = ["gzip"] := by
    rw [getAll_lines_of_own (by decide) (by decide) (by decide), coded, Headers.getAll_add,
      Headers.getAll_add, Headers.contains_eq_false_iff.1 h, if_pos (by decide), if_neg (by decide)]
    rfl
  rw [Coding.isGzipEncoded, Headers.hasToken_of_getAll hone, Bool.or_eq_true]
  exact .inl (by decide)

/-- When the client drops the coding and the length, the handler's fields are left. -/
theorem carriedBy_decoded (h : r.headers.contains "content-encoding" = false) :
    r.CarriedBy ((Headers.remove "content-encoding" ⟨(r.coded encode).lines⟩).remove "content-length") := by
  have hcoding : ∀ e ∈ r.ownFields, Text.sameName e.1 "content-encoding" = false := by
    intro e he
    exact Bool.eq_false_iff.2 (List.any_eq_false.1 h e (List.mem_filter.1 he).1)
  have hlength : ∀ e ∈ r.ownFields, Text.sameName e.1 "content-length" = false := by
    intro e he
    have hkept := (List.mem_filter.1 he).2
    rw [Bool.and_eq_true, Bool.not_eq_true', Bool.not_eq_true'] at hkept
    exact hkept.2
  exact ((r.carriedBy_lines_coded encode).remove hcoding).remove hlength

/-- The client takes the coding off that the server has put on, and gets the body; the handler's fields and the
connection option are left. -/
theorem decoded_compressed (hr : r.Transferable) (hinverse : Gzip.gunzip (encode r.body) limit = .ok r.body)
    (acceptsGzip toHead : Bool) : ∃ headers,
      decoded limit ⟨(r.compressed acceptsGzip encode).lines⟩ ((r.compressed acceptsGzip encode).wireBody toHead) =
          .ok (headers, if toHead || r.status.forbidsBody then [] else r.body) ∧
        r.CarriedBy headers ∧ headers.getAll "connection" = [r.option] := by
  rcases compressed_cases acceptsGzip r encode with h | ⟨h, -, hallowed⟩ <;> rw [h]
  · refine ⟨⟨r.lines⟩, ?_, r.carriedBy_lines, r.getAll_connection⟩
    rw [decoded, isGzipEncoded_lines hr.uncoded, wireBody_eq]
    rfl
  · have hbody : (r.coded encode).wireBody toHead = if toHead then [] else encode r.body := by
      rw [wireBody_eq, show (r.coded encode).status.forbidsBody = false from hallowed, Bool.or_false]
      rfl
    rw [hallowed, Bool.or_false, decoded, isGzipEncoded_lines_coded hr.uncoded, hbody, Bool.true_and]
    cases toHead with
    -- without a body there is nothing to decode, and the fields still describe what a GET would have brought
    | true => exact ⟨⟨(r.coded encode).lines⟩, rfl, r.carriedBy_lines_coded encode, (r.coded encode).getAll_connection⟩
    | false =>
      -- nothing is no gzip member, so the encoder has not made nothing of the body
      have hsome : (!(encode r.body).isEmpty) = true := by
        cases hcontent : encode r.body with
        | nil =>
          rw [hcontent] at hinverse
          cases hinverse
        | cons byte rest => rfl
      refine ⟨(Headers.remove "content-encoding" ⟨(r.coded encode).lines⟩).remove "content-length", ?_,
        carriedBy_decoded hr.uncoded, ?_⟩
      · rw [if_neg Bool.false_ne_true, if_pos hsome, hinverse]
        rfl
      · rw [Headers.getAll_remove_of_ne (by decide), Headers.getAll_remove_of_ne (by decide)]
        exact (r.coded encode).getAll_connection

end Response

/-! ## A body that is compressed -/

namespace Gzip

/-- A body that is worth compressing. -/
def letters : Bytes := List.replicate 40 97

/-- A block with codes of its own has to describe them. -/
theorem length_ownBlock (items : List Item) : 71 ≤ (ownBlock items).length := by
  simp only [ownBlock, List.length_append, length_lowBits]
  simp [List.length_flatMap, length_lowBits, lengthOrder]
  omega

theorem itemsOf_letters : itemsOf letters = [.literal 97, .copy 39 1, .endOfBlock] := by
  have hlength : letters.length = 40 := by decide
  have hsize : letters.toArray.size = 40 := by decide
  have hkey : ∀ i ∈ [0, 1], key? letters.toArray i = some 6381921 := by decide
  have hfirst : choose letters.toArray ∅ 0 = (.literal 97, 1) := by
    have hnone : candidates letters.toArray ∅ 0 = [] := by
      rw [candidates, hkey 0 (by simp), Option.bind_some, Std.HashMap.getElem?_empty]
      rfl
    rw [choose, hnone]
    decide
  have hnote : note letters.toArray ∅ 0 = (∅ : Places).insert 6381921 [0] := by
    rw [note, hkey 0 (by simp)]
    simp only [Std.HashMap.getElem?_empty]
    rfl
  have hsecond : choose letters.toArray ((∅ : Places).insert 6381921 [0]) 1 = (.copy 39 1, 39) := by
    have hone : candidates letters.toArray ((∅ : Places).insert 6381921 [0]) 1 = [0] := by
      rw [candidates, hkey 1 (by simp), Option.bind_some, Std.HashMap.getElem?_insert_self]
      rfl
    rw [choose, hone]
    decide
  rw [itemsOf, hlength, itemsFrom, hsize, if_pos (by decide), hfirst]
  simp only [List.range_one, List.foldl_cons, List.foldl_nil, Nat.zero_add, hnote]
  rw [itemsFrom, hsize, if_pos (by decide), hsecond]
  simp only
  rw [itemsFrom, hsize, if_neg (by decide)]
  rfl

theorem gzip_letters :
    gzip letters = [31, 139, 8, 0, 0, 0, 0, 0, 0, 255, 75, 36, 18, 0, 0, 37, 138, 91, 201, 40, 0, 0, 0] := by
  have hfixed : (fixedBlock [.literal 97, .copy 39 1, .endOfBlock]).length ≤ 71 := by decide +kernel
  have hdeflate : deflate letters = [75, 36, 18, 0, 0] := by
    rw [deflate, itemsOf_letters, if_pos (Nat.le_trans hfixed (length_ownBlock _))]
    decide +kernel
  rw [gzip, hdeflate]
  decide +kernel

end Gzip

namespace Response

theorem compressed_letters :
    ((new .ok).withBody Gzip.letters).compressed true = ((new .ok).withBody Gzip.letters).coded Gzip.gzip := by
  rw [compressed, if_neg (by decide)]
  exact if_pos (by show (Gzip.gzip Gzip.letters).length < _; rw [Gzip.gzip_letters]; decide)

/-! ## The round trip -/

variable {r : Response} {limit : Nat}

theorem decode_wireBody {toHead : Bool} (hbody : r.sentBody.length ≤ limit) :
    (if toHead || r.status.forbidsBody then Framing.empty else .ofLength r.sentBody.length).decode limit
      (r.wireBody toHead) = .ok (some (r.wireBody toHead, [])) := by
  cases hnone : toHead || r.status.forbidsBody with
  | true =>
    rw [wireBody_eq, hnone]
    rfl
  | false =>
    obtain ⟨htoHead, hallowed⟩ := Bool.or_eq_false_iff.1 hnone
    subst htoHead
    have hread := Framing.decode_ofLength hbody []
    rw [List.append_nil] at hread
    exact hread

/-- The response on the wire, with what is left of its fields and its body when its coding is taken off. -/
def delivery {toHead : Bool} (hfields : r.HasFields) (hplain : r.headers.contains "transfer-encoding" = false)
    (hcount : r.lines.length ≤ Head.maxFields) (hsize : (Bytes.ofText r.head).length ≤ maxHead)
    (hbody : r.sentBody.length ≤ limit) (hlimit : limit ≤ Text.maxWord) {headers : Headers} {content : Bytes}
    (hcontent : decoded limit ⟨r.lines⟩ (r.wireBody toHead) = .ok (headers, content)) : Delivery toHead limit where
  head := Bytes.ofText r.head
  body := r.wireBody toHead
  parsed := ⟨.http11, r.status.code, r.lines.map fun e => ⟨e.1, Bytes.ofText e.2⟩⟩
  framing := if toHead || r.status.forbidsBody then .empty else .ofLength r.sentBody.length
  framed := r.wireBody toHead
  headers := headers
  content := content
  head_eq := by
    have hread := hfields.reads hcount []
    rwa [List.append_nil] at hread
  head_le := hsize
  code_eq := by
    show isInterim r.status.code = false
    cases r.status <;> rfl
  framing_eq := by
    rw [Head.headers_lines]
    exact forResponse_lines hplain (Nat.le_trans hbody hlimit) toHead
  body_eq := decode_wireBody hbody
  body_le := by
    unfold wireBody
    split
    · exact Nat.zero_le _
    · exact hbody
  content_eq := by
    rw [Head.headers_lines]
    exact hcontent

/-- A response comes through, whether the client takes gzip or not, by whichever encoder its body is compressed as long
as the client inverts it, whether it answers a HEAD request or not, however its bytes are cut into reads, and whatever
follows them. Bytes that follow are read only with the last read that the response needs, and then the connection is
spent. -/
theorem received_of_encode {r : Response} {limit : Nat} {encode : Bytes → Bytes} (hr : r.Transferable)
    (hinverse : Gzip.gunzip (encode r.body) limit = .ok r.body) (hbody : r.body.length ≤ limit)
    (hlimit : limit ≤ Text.maxWord) (acceptsGzip toHead : Bool)
    (hcount : (r.compressed acceptsGzip encode).lines.length ≤ Head.maxFields)
    (hsize : (Bytes.ofText (r.compressed acceptsGzip encode).head).length ≤ maxHead) (following : Bytes) :
    ∃ response : ClientResponse,
      response.status = r.status.code ∧ response.version = .http11 ∧
      response.body = (if toHead || r.status.forbidsBody then [] else r.body) ∧
      r.CarriedBy response.headers ∧ response.allowsReuse = r.keepAlive ∧
      ∀ reads : List Bytes, reads.flatten = (r.compressed acceptsGzip encode).encode toHead ++ following →
        (∃ seen unread, consume reads (ResponseReader.new toHead limit) = some (.ok ⟨response, !seen.isEmpty⟩, unread) ∧
          following = seen ++ unread.flatten) ∧
        ∀ ending, ∃ spent, ClientResponse.read toHead limit reads ending = .ok ⟨response, spent⟩ ∧
          (spent = true → following ≠ []) := by
  obtain ⟨headers, hcontent, hcarried, hoption⟩ := decoded_compressed hr hinverse acceptsGzip toHead
  let d : Delivery toHead limit := delivery (hr.fields.compressed acceptsGzip encode)
    (compressed_unchunked hr.unchunked acceptsGzip encode) hcount hsize
    (Nat.le_trans (r.length_compressed_le acceptsGzip encode) hbody) hlimit hcontent
  refine ⟨d.response, ?_, rfl, rfl, hcarried, allowsReuse_of_connection rfl hoption, fun reads hreads => ?_⟩
  · exact congrArg Status.code (compressed_status acceptsGzip r encode)
  · rw [encode_eq, List.append_assoc] at hreads
    exact ⟨d.consume_new hreads, d.read_eq hreads⟩

theorem received_of_letters : ∃ response : ClientResponse, response.status = 200 ∧ response.body = Gzip.letters ∧
    ∀ reads : List Bytes,
      reads.flatten = (((new .ok).withBody Gzip.letters).compressed true).encode false ++ [72] →
        ∃ seen unread, consume reads (ResponseReader.new false 40) = some (.ok ⟨response, !seen.isEmpty⟩, unread) ∧
          [72] = seen ++ unread.flatten := by
  have hcoded : ((new .ok).withBody Gzip.letters).coded Gzip.gzip =
      ⟨.ok, ((Headers.empty.add "Content-Encoding" "gzip").add "Vary" "Accept-Encoding"),
        [31, 139, 8, 0, 0, 0, 0, 0, 0, 255, 75, 36, 18, 0, 0, 37, 138, 91, 201, 40, 0, 0, 0], true⟩ := by
    rw [coded, show ((new .ok).withBody Gzip.letters).body = Gzip.letters from rfl, Gzip.gzip_letters]
    rfl
  have hinverse : Gzip.gunzip (Gzip.gzip Gzip.letters) 40 = .ok Gzip.letters := by
    rw [Gzip.gzip_letters]
    decide +kernel
  have htransferable : ((new .ok).withBody Gzip.letters).Transferable := by
    refine ⟨?_, rfl, rfl⟩
    intro e he
    cases he
  have hcount : (((new .ok).withBody Gzip.letters).compressed true).lines.length ≤ Head.maxFields := by
    rw [compressed_letters, hcoded]
    decide
  have hsize : (Bytes.ofText (((new .ok).withBody Gzip.letters).compressed true).head).length ≤ maxHead := by
    rw [compressed_letters, hcoded]
    decide +kernel
  obtain ⟨response, hstatus, -, hbody, -, -, hreads⟩ := received_of_encode htransferable hinverse
    (by decide) (by decide) true false hcount hsize [72]
  exact ⟨response, hstatus, hbody, fun reads h => (hreads reads h).1⟩

end Response

end Hypertext
