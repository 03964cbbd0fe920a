/-
What a response denotes, and what is left of that when a client has received it. A message denotes its body with the
codings taken off that its lines list, the last one first. A client takes gzip off once if it is listed anywhere, and
then drops the whole list; so it keeps what the message denotes if gzip is not listed or is the only coding, but not if
there are others.
-/
import Hypertext.Proofs.Client.Reads
import Hypertext.Proofs.Client.Segmentation
import Hypertext.Proofs.Gzip.Limit

namespace Hypertext

/-! ## What a message denotes -/

namespace ContentCoding

/-- One of the names of the gzip coding. -/
def IsGzip (coding : Bytes) : Prop := ∃ s, coding = Bytes.ofText s ∧ Coding.isGzip s = true

/-- Bytes are a gzip member with this content. -/
def Gunzips (b content : Bytes) : Prop := ∃ limit, Gzip.gunzip b limit = .ok content

/-- What a body becomes when codings are taken off it one after another. What codings other than gzip do is given. -/
inductive Decodes (other : Bytes → Bytes → Bytes → Prop) : List Bytes → Bytes → Bytes → Prop
  | plain {body : Bytes} : Decodes other [] body body
  | gzip {coding : Bytes} {inner : List Bytes} {body part content : Bytes} (name : IsGzip coding)
      (member : Gunzips body part) (others : Decodes other inner part content) :
      Decodes other (coding :: inner) body content
  | other {coding : Bytes} {inner : List Bytes} {body part content : Bytes} (name : ¬ IsGzip coding)
      (coded : other coding body part) (others : Decodes other inner part content) :
      Decodes other (coding :: inner) body content

/-- A message with these values of its coding lines and this body denotes some content: the coding that is listed last
is the outermost one. -/
def Denotes (other : Bytes → Bytes → Bytes → Prop) (values : List Bytes) (body content : Bytes) : Prop :=
  Decodes other (codings values).reverse body content

/-- Two messages denote the same, whatever the codings other than gzip do. -/
def SameContent (values : List Bytes) (body : Bytes) (values' : List Bytes) (body' : Bytes) : Prop :=
  ∀ other content, Denotes other values body content ↔ Denotes other values' body' content

variable {other : Bytes → Bytes → Bytes → Prop} {coding : Bytes} {inner values : List Bytes}
  {body part content content' : Bytes}

theorem Gunzips.unique (h : Gunzips body content) (h' : Gunzips body content') : content = content' := by
  obtain ⟨limit, h⟩ := h
  obtain ⟨limit', h'⟩ := h'
  exact Gzip.gunzip_unique h h'

/-- Below an outermost gzip coding stands the content of the member. -/
theorem decodes_gzip_iff (name : IsGzip coding) (member : Gunzips body part) :
    Decodes other (coding :: inner) body content ↔ Decodes other inner part content := by
  constructor
  · intro h
    cases h with
    | gzip _ member' others =>
      rw [member.unique member']
      exact others
    | other name' => exact absurd name name'
  · exact .gzip name member

/-- If no coding but gzip is undone a body becomes one thing only, whatever the other codings do. -/
theorem Decodes.unique (h : Decodes (fun _ _ _ => False) inner body content) (h' : Decodes other inner body content') :
    content = content' := by
  induction h with
  | plain =>
    cases h'
    rfl
  | gzip name member others ih => exact ih ((decodes_gzip_iff name member).1 h')
  | other _ coded => cases coded

/-- A message without codings denotes its body. -/
theorem denotes_nil_iff : Denotes other [] body content ↔ content = body := by
  constructor
  · intro h
    cases h
    rfl
  · rintro rfl
    exact .plain

/-- When gzip is taken off a message once and all its codings are dropped, it denotes the same exactly if gzip is the
outermost coding and the others lead back to where they begin; none are, so that it does if there are no others. -/
theorem sameContent_iff (member : Gunzips body part) (hcoded : codings values ≠ []) :
    SameContent values body [] part ↔ ∃ coding inner, (codings values).reverse = coding :: inner ∧ IsGzip coding ∧
      ∀ other, Decodes other inner part part := by
  constructor
  · intro h
    obtain ⟨coding, inner, hlist⟩ := List.exists_cons_of_ne_nil (mt List.reverse_eq_nil_iff.1 hcoded)
    have hdenotes : ∀ other, Decodes other (coding :: inner) body part := fun other =>
      hlist ▸ (h other part).2 (denotes_nil_iff.2 rfl)
    have hname : IsGzip coding := by
      by_contra hname
      -- a coding that nothing is known of may denote nothing
      cases hdenotes fun _ _ _ => False with
      | gzip name => exact hname name
      | other _ coded => exact coded
    exact ⟨coding, inner, hlist, hname, fun other => (decodes_gzip_iff hname member).1 (hdenotes other)⟩
  · rintro ⟨coding, inner, hlist, hname, hback⟩ other content
    rw [Denotes, hlist, decodes_gzip_iff hname member, denotes_nil_iff]
    constructor
    · intro h
      exact ((hback _).unique h).symm
    · rintro rfl
      exact hback other

end ContentCoding

/-! ## What a client looks for -/

/-- The values of the lines of a name. -/
def ResponseHead.values (name : String) (head : ResponseHead) : List Bytes :=
  (head.fields.filter fun f => Text.sameName f.name name).map (·.value)

/-- The values of the coding lines of a response. -/
def ClientResponse.codingValues (r : ClientResponse) : List Bytes :=
  (r.headers.getAll "content-encoding").map Bytes.ofText

namespace ContentCoding

variable {head : ResponseHead}

/-- Plain values come through as they are. -/
theorem getAll_of_plain (hplain : ∀ v ∈ head.values "content-encoding", IsPlainValue v) :
    ((Head.headers head.fields).getAll "content-encoding").map Bytes.ofText = head.values "content-encoding" := by
  obtain ⟨texts, hvalues, htexts, -⟩ := exists_texts hplain
  rw [Head.getAll_headers]
  show ((head.values "content-encoding").filterMap Bytes.text?).map Bytes.ofText = _
  rw [htexts, hvalues]

/-- A client looks whether gzip is anywhere among the codings. -/
theorem isGzipEncoded_iff (hplain : ∀ v ∈ head.values "content-encoding", IsPlainValue v) :
    Coding.isGzipEncoded (Head.headers head.fields) = true ↔
      ∃ coding ∈ codings (head.values "content-encoding"), IsGzip coding := by
  obtain ⟨texts, hvalues, htexts, htextsPlain⟩ := exists_texts hplain
  have helements : (Head.headers head.fields).elements "content-encoding" =
      texts.flatMap fun v => (Text.split ',' v).map Text.trim := by
    rw [Headers.elements, Head.getAll_headers]
    show ((head.values "content-encoding").filterMap Bytes.text?).flatMap _ = _
    rw [htexts]
  have hany : Coding.isGzipEncoded (Head.headers head.fields) = true ↔
      ∃ s ∈ texts.flatMap fun v => (Text.split ',' v).map Text.trim, Coding.isGzip s = true := by
    simp only [Coding.isGzipEncoded, Headers.hasToken, helements, Coding.isGzip, Bool.or_eq_true, List.any_eq_true]
    constructor
    · rintro (⟨s, hs, hname⟩ | ⟨s, hs, hname⟩)
      · exact ⟨s, hs, .inl hname⟩
      · exact ⟨s, hs, .inr hname⟩
    · rintro ⟨s, hs, hname | hname⟩
      · exact .inl ⟨s, hs, hname⟩
      · exact .inr ⟨s, hs, hname⟩
  rw [hany, hvalues, codings_ofText htextsPlain]
  constructor
  · rintro ⟨s, hs, hname⟩
    refine ⟨Bytes.ofText s, List.mem_map_of_mem (List.mem_filter.2 ⟨hs, ?_⟩), s, rfl, hname⟩
    -- what is empty is no name
    rw [bne_iff_ne]
    rintro rfl
    exact absurd hname (by decide)
  · rintro ⟨coding, hcoding, s, rfl, hname⟩
    obtain ⟨t, ht, heq⟩ := List.mem_map.1 hcoding
    obtain rfl := Bytes.ofText_injective heq
    exact ⟨t, (List.mem_filter.1 ht).1, hname⟩

end ContentCoding

/-! ## The final response of a stream -/

namespace ResponseReader

/-- The final response of a stream: behind the heads of interim responses stands its head, and its body has an end among
the bytes behind that, or lasts until the connection ends. -/
inductive Bears (toHead : Bool) (maxBody : Nat) (stream : Bytes) (head : ResponseHead) : Bytes → Prop
  | ended {framing : Framing} {wire body rest : Bytes} (opens : Opens toHead stream head framing wire)
      (found : framing.decode maxBody wire = .ok (some (body, rest))) : Bears toHead maxBody stream head body
  | closed {wire : Bytes} (opens : Opens toHead stream head .untilClose wire) : Bears toHead maxBody stream head wire

variable {toHead : Bool} {maxBody : Nat} {stream body body' content : Bytes} {head head' : ResponseHead}
  {headers headers' : Headers} {r : ResponseReader} {reads : List Bytes} {ending : Ending} {received : Received}

theorem Bears.unique (h : Bears toHead maxBody stream head body) (h' : Bears toHead maxBody stream head' body') :
    head = head' ∧ body = body' := by
  cases h with
  | ended opens found =>
    cases h' with
    | ended opens' found' =>
      obtain ⟨rfl, rfl, rfl⟩ := opens.unique opens'
      rw [found] at found'
      cases found'
      exact ⟨rfl, rfl⟩
    | closed opens' =>
      obtain ⟨-, rfl, -⟩ := opens.unique opens'
      exact absurd found (Framing.decode_untilClose_ne_some _)
  | closed opens =>
    cases h' with
    | ended opens' found' =>
      obtain ⟨-, rfl, -⟩ := opens.unique opens'
      exact absurd found' (Framing.decode_untilClose_ne_some _)
    | closed opens' =>
      obtain ⟨rfl, -, rfl⟩ := opens.unique opens'
      exact ⟨rfl, rfl⟩

theorem Waits.holds (h : Waits (new toHead maxBody) reads r) : Holds toHead maxBody reads.flatten r := by
  induction h with
  | start => exact holds_new
  | @read reads r next read before some fits waits ih =>
    have hfollows := ih.feed read
    rw [waits] at hfollows
    rw [List.flatten_concat]
    exact hfollows

/-- A response that is received is the final one of its stream, with its coding taken off. -/
theorem Comes.bears (h : Comes (new toHead maxBody) ending stream (.ok received)) :
    ∃ head body headers content, Bears toHead maxBody stream head body ∧
      decoded maxBody (Head.headers head.fields) body = .ok (headers, content) ∧
      received.response = ⟨head.code, head.version, headers, content⟩ := by
  generalize houtcome : Except.ok received = outcome at h
  cases h with
  | @read reads r read _ before part fits done =>
    have hfollows := before.holds.feed read
    rw [done] at hfollows
    have htook : Took toHead maxBody (reads.flatten ++ read) false received := hfollows received houtcome.symm
    obtain ⟨later, rfl⟩ := part
    cases htook with
    | ended opens found coding =>
      exact ⟨_, _, _, _, .ended (opens.append later) (Framing.decode_append found later), coding, rfl⟩
  | @ended reads r before all =>
    cases ending with
    | closed =>
      have htook := before.holds.close houtcome.symm
      rw [all] at htook
      cases htook with
      | closed opens coding => exact ⟨_, _, _, _, .closed opens, coding, rfl⟩
    | failed text => cases houtcome
    | overdue limit => cases houtcome

/-- A coding is taken off if it is gzip and there is a body, and otherwise nothing is changed. -/
theorem decoded_eq_ok (h : decoded maxBody headers body = .ok (headers', content)) :
    (Coding.isGzipEncoded headers = true ∧ body ≠ [] ∧ Gzip.gunzip body maxBody = .ok content ∧
      headers' = (headers.remove "content-encoding").remove "content-length") ∨
    (Coding.isGzipEncoded headers = false ∨ body = []) ∧ headers' = headers ∧ content = body := by
  unfold decoded at h
  split at h
  · next hcoded =>
    rw [Bool.and_eq_true, Bool.not_eq_true', List.isEmpty_eq_false_iff] at hcoded
    split at h
    · next hgunzip =>
      cases h
      exact .inl ⟨hcoded.1, hcoded.2, hgunzip, rfl⟩
    · cases h
  · next hplain =>
    cases h
    refine .inr ⟨?_, rfl, rfl⟩
    rw [Bool.and_eq_true, not_and_or, Bool.not_eq_true, Bool.not_eq_true, Bool.not_eq_false',
      List.isEmpty_iff] at hplain
    exact hplain

end ResponseReader

/-! ## Main result -/

namespace ContentCoding

open ResponseReader

/-- What a client makes of a response with this head and this body: gzip is taken off once, with all codings, wherever
it is listed; and what the message denotes is kept if that changes nothing, or if gzip is the outermost coding and the
others lead back to where they begin. -/
structure Treats (head : ResponseHead) (body : Bytes) (r : ClientResponse) : Prop where
  untouched : (∀ coding ∈ codings (head.values "content-encoding"), ¬ IsGzip coding) ∨ body = [] →
    r.headers = Head.headers head.fields ∧ r.body = body
  decompressed : (∃ coding ∈ codings (head.values "content-encoding"), IsGzip coding) → body ≠ [] →
    Gunzips body r.body ∧ r.headers = ((Head.headers head.fields).remove "content-encoding").remove "content-length"
  same : SameContent (head.values "content-encoding") body r.codingValues r.body ↔
    (∀ coding ∈ codings (head.values "content-encoding"), ¬ IsGzip coding) ∨ body = [] ∨
      ∃ coding inner, (codings (head.values "content-encoding")).reverse = coding :: inner ∧ IsGzip coding ∧
        ∀ other, Decodes other inner r.body r.body
  single : (codings (head.values "content-encoding")).length ≤ 1 →
    SameContent (head.values "content-encoding") body r.codingValues r.body

variable {head : ResponseHead} {body : Bytes} {r : ClientResponse} {maxBody : Nat}

theorem treats_of_untouched (hplain : ∀ v ∈ head.values "content-encoding", IsPlainValue v)
    (hnone : (∀ coding ∈ codings (head.values "content-encoding"), ¬ IsGzip coding) ∨ body = [])
    (hheaders : r.headers = Head.headers head.fields) (hbody : r.body = body) : Treats head body r := by
  have hvalues : r.codingValues = head.values "content-encoding" := by
    rw [ClientResponse.codingValues, hheaders, getAll_of_plain hplain]
  have hsame : SameContent (head.values "content-encoding") body r.codingValues r.body := by
    intro other content
    rw [hvalues, hbody]
  constructor
  case untouched => exact fun _ => ⟨hheaders, hbody⟩
  case decompressed =>
    rintro ⟨coding, hcoding, hname⟩ hsome
    exact absurd hname (hnone.resolve_right hsome coding hcoding)
  case same => exact iff_of_true hsame (hnone.imp_right .inl)
  case single => exact fun _ => hsame

theorem treats_of_decompressed (hgzip : ∃ coding ∈ codings (head.values "content-encoding"), IsGzip coding)
    (hsome : body ≠ []) (hbody : Gunzips body r.body)
    (hheaders : r.headers = ((Head.headers head.fields).remove "content-encoding").remove "content-length") :
    Treats head body r := by
  obtain ⟨coding, hcoding, hname⟩ := hgzip
  have hvalues : r.codingValues = [] := by
    rw [ClientResponse.codingValues, hheaders, Headers.getAll_remove_of_ne (by decide), Headers.getAll_remove_self]
    rfl
  have hnone : ¬ ((∀ coding ∈ codings (head.values "content-encoding"), ¬ IsGzip coding) ∨ body = []) := by
    rintro (hnone | hnone)
    · exact hnone coding hcoding hname
    · exact hsome hnone
  have hsame := sameContent_iff hbody (List.ne_nil_of_mem hcoding)
  rw [← hvalues] at hsame
  constructor
  case untouched => exact fun h => absurd h hnone
  case decompressed => exact fun _ _ => ⟨hbody, hheaders⟩
  case same =>
    rw [hsame, ← or_assoc, or_iff_right hnone]
  case single =>
    intro hle
    obtain ⟨coding', hlist⟩ := List.length_eq_one_iff.1
      (Nat.le_antisymm hle (List.length_pos_iff.2 (List.ne_nil_of_mem hcoding)))
    rw [hlist, List.mem_singleton] at hcoding
    subst hcoding
    exact hsame.2 ⟨coding, [], by rw [hlist]; rfl, hname, fun _ => .plain⟩

/-- Whatever bytes come, however they are cut, a response that is received is the final one of its stream. Where the
values of its coding lines have no white space but spaces and tabs, its body is left as it is if it is empty or gzip is
not listed; otherwise it is the content of the gzip member that the body is, and no coding is listed any more. That is
what the message denotes if it lists one coding, and otherwise only if gzip is listed last and the codings before it
change nothing. -/
theorem content_of_read {toHead : Bool} {pieces : List Bytes} {ending : Ending} {received : Received}
    (h : ClientResponse.read toHead maxBody pieces ending = .ok received) :
    (∃ head body, Bears toHead maxBody pieces.flatten head body) ∧
    ∀ head body, Bears toHead maxBody pieces.flatten head body →
      received.response.status = head.code ∧ received.response.version = head.version ∧
      ((∀ v ∈ head.values "content-encoding", IsPlainValue v) → Treats head body received.response) := by
  have hcomes := comes_read toHead maxBody pieces ending
  rw [h] at hcomes
  obtain ⟨head, body, headers, content, hbears, hdecoded, hresponse⟩ := hcomes.bears
  refine ⟨⟨head, body, hbears⟩, fun head' body' hbears' => ?_⟩
  obtain ⟨rfl, rfl⟩ := hbears.unique hbears'
  rw [hresponse]
  refine ⟨rfl, rfl, fun hplain => ?_⟩
  rcases decoded_eq_ok hdecoded with ⟨hcoded, hsome, hgunzip, rfl⟩ | ⟨hnone, rfl, rfl⟩
  · exact treats_of_decompressed ((isGzipEncoded_iff hplain).1 hcoded) hsome ⟨maxBody, hgunzip⟩ rfl
  · refine treats_of_untouched hplain (hnone.imp_left fun hnone coding hcoding hname => ?_) rfl rfl
    rw [(isGzipEncoded_iff hplain).2 ⟨coding, hcoding, hname⟩] at hnone
    cases hnone

theorem read_of_toOption {toHead : Bool} {pieces : List Bytes} {ending : Ending} {received : Received}
    (h : (ClientResponse.read toHead maxBody pieces ending).toOption = some received) :
    ClientResponse.read toHead maxBody pieces ending = .ok received := by
  cases hread : ClientResponse.read toHead maxBody pieces ending with
  | error e =>
    rw [hread] at h
    cases h
  | ok found =>
    rw [hread] at h
    cases h
    rfl

/-- The letter a, compressed. -/
def letter : Bytes := [31, 139, 8, 0, 0, 0, 0, 0, 0, 255, 1, 1, 0, 254, 255, 97, 67, 190, 183, 232, 1, 0, 0, 0]

theorem gunzip_letter : Gzip.gunzip letter 100 = .ok (Bytes.ofText "a") := by decide +kernel

/-- One coding that is listed is taken off. -/
theorem content_of_read_of_letter :
    let head := Bytes.ofText "HTTP/1.1 200 OK\r\nContent-Encoding: gzip\r\nContent-Length: 24\r\n\r\n"
    let h : ResponseHead := ⟨.http11, 200, [⟨"Content-Encoding", Bytes.ofText "gzip"⟩, ⟨"Content-Length", [50, 52]⟩]⟩
    let received : Received := ⟨⟨200, .http11, .empty, Bytes.ofText "a"⟩, false⟩
    ClientResponse.read false 100 [head ++ letter] .closed = .ok received ∧
      Bears false 100 [head ++ letter].flatten h letter ∧ Treats h letter received.response ∧
      SameContent (h.values "content-encoding") letter [] (Bytes.ofText "a") := by
  intro head h received
  have hread : ClientResponse.read false 100 [head ++ letter] .closed = .ok received :=
    read_of_toOption (by decide +kernel)
  have hopens : Opens false [head ++ letter].flatten h (.length 24) letter :=
    ⟨⟨_, .refl, rfl⟩, rfl, by decide⟩
  have hfound : (Framing.length 24).decode 100 letter = .ok (some (letter, [])) := by decide
  have hbears : Bears false 100 [head ++ letter].flatten h letter := .ended hopens hfound
  have hplain : ∀ v ∈ h.values "content-encoding", IsPlainValue v := by
    intro v hv
    have hvalues : h.values "content-encoding" = [Bytes.ofText "gzip"] := by decide
    rw [hvalues, List.mem_singleton] at hv
    exact ⟨"gzip", hv.symm, by decide⟩
  obtain ⟨-, hall⟩ := content_of_read hread
  obtain ⟨-, -, htreats⟩ := hall h letter hbears
  exact ⟨hread, hbears, htreats hplain, (htreats hplain).single (by decide)⟩

/-- Of two codings that are listed one is taken off and none is told any more. -/
theorem one_of_two_codings :
    let body := [31, 139, 8, 0, 0, 0, 0, 0, 0, 255, 1, 24, 0, 231, 255] ++ letter ++ [10, 54, 155, 166, 24, 0, 0, 0]
    let head := Bytes.ofText "HTTP/1.1 200 OK\r\nContent-Encoding: gzip, gzip\r\nContent-Length: 47\r\n\r\n"
    let h : ResponseHead :=
      ⟨.http11, 200, [⟨"Content-Encoding", Bytes.ofText "gzip, gzip"⟩, ⟨"Content-Length", [52, 55]⟩]⟩
    let received : Received := ⟨⟨200, .http11, .empty, letter⟩, false⟩
    ClientResponse.read false 100 [head ++ body] .closed = .ok received ∧
      Bears false 100 [head ++ body].flatten h body ∧
      (∀ other, Denotes other (h.values "content-encoding") body (Bytes.ofText "a")) ∧
      (∀ other content,
        Denotes other received.response.codingValues received.response.body content → content = letter) ∧
      ¬ SameContent (h.values "content-encoding") body received.response.codingValues received.response.body := by
  intro body head h received
  have hread : ClientResponse.read false 100 [head ++ body] .closed = .ok received :=
    read_of_toOption (by decide +kernel)
  have hopens : Opens false [head ++ body].flatten h (.length 47) body := ⟨⟨_, .refl, rfl⟩, rfl, by decide⟩
  have hfound : (Framing.length 47).decode 100 body = .ok (some (body, [])) := by decide
  have hbears : Bears false 100 [head ++ body].flatten h body := .ended hopens hfound
  have hgzip : IsGzip (Bytes.ofText "gzip") := ⟨"gzip", rfl, by decide⟩
  have hcodings : (codings (h.values "content-encoding")).reverse = [Bytes.ofText "gzip", Bytes.ofText "gzip"] := by
    decide
  have hbody : Gunzips body letter := ⟨100, by decide +kernel⟩
  have hdenotes : ∀ other, Denotes other (h.values "content-encoding") body (Bytes.ofText "a") := by
    intro other
    rw [Denotes, hcodings]
    exact .gzip hgzip hbody (.gzip hgzip ⟨100, gunzip_letter⟩ .plain)
  have hreceived : ∀ other content,
      Denotes other received.response.codingValues received.response.body content → content = letter :=
    fun other content => denotes_nil_iff.1
  refine ⟨hread, hbears, hdenotes, hreceived, fun hsame => ?_⟩
  have heq := hreceived (fun _ _ _ => False) _ ((hsame _ _).1 (hdenotes _))
  exact absurd heq (by decide)

end ContentCoding

end Hypertext
