/-
What becomes of a gzip body. Decompression takes the first member and does not look at what follows it, so that of a
body that is a sequence of members all but the first are lost, and other bytes behind it are passed over; a body that
does not begin with a member within the limit is reported as a violation of the protocol.
-/
import Hypertext.Proofs.Client.ContentCoding

namespace Hypertext

/-! ## Sequences of members -/

namespace Gzip

/-- One or more members and nothing else; the content is the contents of all of them, one after another. -/
inductive IsMembers : Bytes → (content : Bytes) → Prop
  | one {member content : Bytes} (form : IsMember member content) : IsMembers member content
  | more {member later content others : Bytes} (form : IsMember member content) (more : IsMembers later others) :
      IsMembers (member ++ later) (content ++ others)

variable {b content rest : Bytes}

theorem IsMembers.leads {all : Bytes} (h : IsMembers b all) :
    ∃ content rest, Leads b content rest ∧ (rest = [] ∧ all = content ∨
      ∃ others, IsMembers rest others ∧ all = content ++ others) := by
  cases h with
  | one form => exact ⟨all, [], ⟨b, (List.append_nil b).symm, form⟩, .inl ⟨rfl, rfl⟩⟩
  | more form more => exact ⟨_, _, ⟨_, rfl, form⟩, .inr ⟨_, more, rfl⟩⟩

/-- Nothing is lost of a sequence of members if there is one only, or if the others have no content. -/
theorem Leads.isMembers_iff (h : Leads b content rest) :
    IsMembers b content ↔ rest = [] ∨ IsMembers rest [] := by
  constructor
  · intro hmembers
    obtain ⟨content', rest', hleads, hend⟩ := hmembers.leads
    obtain ⟨rfl, rfl⟩ := h.unique hleads
    rcases hend with ⟨rfl, -⟩ | ⟨others, hothers, heq⟩
    · exact .inl rfl
    · obtain rfl : others = [] := List.self_eq_append_right.1 heq
      exact .inr hothers
  · obtain ⟨member, rfl, form⟩ := h
    rintro (rfl | hothers)
    · rw [List.append_nil]
      exact .one form
    · have hmembers := IsMembers.more form hothers
      rwa [List.append_nil] at hmembers

end Gzip

/-! ## Failures of a reader -/

namespace ResponseReader

variable {toHead : Bool} {maxBody : Nat} {stream wire body : Bytes} {head : ResponseHead} {headers : Headers}
  {framing : Framing} {r : ResponseReader} {reads : List Bytes} {ending : Ending} {e : ClientError}

/-- A failure that tells of a violation of the protocol. -/
def IsViolation (e : ClientError) : Prop := ∃ text, e = .protocolViolation text

theorem isViolation_of_decoded (h : decoded maxBody headers body = .error e) : IsViolation e := by
  unfold decoded at h
  split at h
  · split at h
    · cases h
    · cases h
      exact ⟨_, rfl⟩
  · cases h

theorem finish_eq_error {rest : Bytes} (h : r.finish head headers framing body rest = .error e) :
    decoded r.maxBody headers body = .error e := by
  unfold finish at h
  cases hdecoded : decoded r.maxBody headers body with
  | error e' =>
    rw [hdecoded] at h
    cases h
    rfl
  | ok found =>
    rw [hdecoded] at h
    cases h

theorem isViolation_of_advanceBody (h : r.advanceBody head headers framing = .done (.error e)) : IsViolation e := by
  unfold advanceBody at h
  split at h
  · cases h
    exact ⟨_, rfl⟩
  · cases h
  · exact isViolation_of_decoded (finish_eq_error (ReadState.done.inj h))

theorem isViolation_of_advanceHead : ∀ {steps : Nat} {r : ResponseReader},
    advanceHead steps r = .done (.error e) → IsViolation e
  | 0, _, h => by cases h
  | steps + 1, r, h => by
    unfold advanceHead at h
    split at h
    · cases h
    · split at h
      · cases h
        exact ⟨_, rfl⟩
      · split at h
        · cases h
          exact ⟨_, rfl⟩
        · cases h
      · dsimp only at h
        split at h
        · exact isViolation_of_advanceHead h
        · split at h
          · cases h
            exact ⟨_, rfl⟩
          · exact isViolation_of_advanceBody h

/-- What a reader finds wrong in what it reads is a violation. -/
theorem isViolation_of_feed {read : Bytes} (h : r.feed read = .done (.error e)) : IsViolation e := by
  unfold feed advance at h
  split at h
  · exact isViolation_of_advanceHead h
  · exact isViolation_of_advanceBody h

/-! ## Readers and the whole stream -/

theorem Waits.found (h : Waits (new toHead maxBody) reads r) :
    found toHead maxBody reads.flatten = .waiting r.bare := by
  induction h with
  | start => rfl
  | @read reads r next read before some fits waits ih =>
    have hfound := feed_found ih read
    rw [waits] at hfound
    rw [List.flatten_concat, ← hfound]
    rfl

theorem Opens.found (h : Opens toHead stream head framing wire) :
    ResponseReader.found toHead maxBody stream = foundBody toHead maxBody head wire := by
  obtain ⟨⟨after, hpassed, hread⟩, hfinal, -⟩ := h
  induction hpassed with
  | refl => exact found_of_final hread hfinal
  | interim read code others ih =>
    rw [found_of_interim read code]
    exact ih hread

theorem gunzip_of_decoded {headers' : Headers} {content : Bytes} (hsome : body ≠ [])
    (hgzip : Coding.isGzipEncoded headers = true) (h : decoded maxBody headers body = .ok (headers', content)) :
    Gzip.gunzip body maxBody = .ok content := by
  rcases decoded_eq_ok h with ⟨-, -, hgunzip, -⟩ | ⟨hplain | hempty, -⟩
  · exact hgunzip
  · rw [hgzip] at hplain
    cases hplain
  · exact absurd hempty hsome

/-- Where the body of a stream cannot have its coding taken off, reading it comes to a violation of the protocol: also
if the body lasts until the connection ends, and it does end. -/
theorem Comes.violation {outcome : Except ClientError Received} (h : Comes (new toHead maxBody) ending stream outcome)
    (hbears : Bears toHead maxBody stream head body) (hdecoded : decoded maxBody (Head.headers head.fields) body = .error e)
    (hend : ending = .closed ∨ ¬ Opens toHead stream head .untilClose body) :
    ∃ e, outcome = .error e ∧ IsViolation e := by
  cases outcome with
  | ok received =>
    obtain ⟨head', body', headers, content, hbears', hdecoded', -⟩ := h.bears
    obtain ⟨rfl, rfl⟩ := hbears.unique hbears'
    rw [hdecoded] at hdecoded'
    cases hdecoded'
  | error e' =>
    refine ⟨e', rfl, ?_⟩
    generalize houtcome : Except.error e' = outcome at h
    cases h with
    | read before part fits done => exact isViolation_of_feed (houtcome ▸ done)
    | @ended reads r before all =>
      have hwaits := before.found
      rw [all] at hwaits
      cases hbears with
      | ended opens found =>
        -- a body that is complete is not waited for
        rw [opens.found, foundBody_of_framed opens.framed, found] at hwaits
        cases hwaits
      | closed opens =>
        have hclosed : ending = .closed := hend.resolve_right (not_not.2 opens)
        rw [opens.found, foundBody_of_framed opens.framed] at hwaits
        split at hwaits
        · cases hwaits
        · rw [← outcome_bare, ← hwaits, hclosed] at houtcome
          exact isViolation_of_decoded (finish_eq_error houtcome.symm)
        · cases hwaits

end ResponseReader

/-! ## Main result -/

namespace Gzip

open ResponseReader

/-- How a byte string is decompressed within a limit, and what a client makes of it if it is the body of a response in
the gzip coding. -/
structure TakesFirst (b : Bytes) (limit : Nat) : Prop where
  /-- The content is that of the first member, which must be there and within the limit. -/
  ok_iff : ∀ content, gunzip b limit = .ok content ↔ content.length ≤ limit ∧ ∃ rest, Leads b content rest
  /-- Nothing is lost exactly if nothing follows that member but members without content. -/
  whole_iff : ∀ content rest, Leads b content rest → (IsMembers b content ↔ rest = [] ∨ IsMembers rest [])
  /-- A body that is received is the content of the first member. -/
  received : ∀ toHead pieces ending head, Bears toHead limit pieces.flatten head b → b ≠ [] →
    Coding.isGzipEncoded (Head.headers head.fields) = true →
    ∀ received, ClientResponse.read toHead limit pieces ending = .ok received →
      received.response.body.length ≤ limit ∧ ∃ rest, Leads b received.response.body rest
  /-- If there is no such member a violation of the protocol is reported, at the latest when the connection ends. -/
  reported : ∀ toHead pieces ending head, Bears toHead limit pieces.flatten head b → b ≠ [] →
    Coding.isGzipEncoded (Head.headers head.fields) = true →
    (∀ content rest, Leads b content rest → limit < content.length) →
    ending = .closed ∨ ¬ Opens toHead pieces.flatten head .untilClose b →
    ∃ text, ClientResponse.read toHead limit pieces ending = .error (.protocolViolation text)

/-- Of a gzip body the first member is decompressed, and what follows it is passed over, be it other members or
anything else; a body that does not begin with a member within the limit is an error. -/
theorem takes_first (b : Bytes) (limit : Nat) : TakesFirst b limit where
  ok_iff content := gunzip_eq_ok_iff
  whole_iff content rest h := h.isMembers_iff
  received toHead pieces ending head hbears hsome hgzip received hread := by
    have hcomes := comes_read toHead limit pieces ending
    rw [hread] at hcomes
    obtain ⟨head', body', headers, content, hbears', hdecoded, hresponse⟩ := hcomes.bears
    obtain ⟨rfl, rfl⟩ := hbears.unique hbears'
    rw [hresponse]
    exact gunzip_eq_ok_iff.1 (gunzip_of_decoded hsome hgzip hdecoded)
  reported toHead pieces ending head hbears hsome hgzip hnone hend := by
    cases hdecoded : decoded limit (Head.headers head.fields) b with
    | ok found =>
      obtain ⟨hle, rest, hleads⟩ := gunzip_eq_ok_iff.1 (gunzip_of_decoded hsome hgzip hdecoded)
      exact absurd (hnone _ _ hleads) (Nat.not_lt.2 hle)
    | error e =>
      obtain ⟨e', hread, text, rfl⟩ := (comes_read toHead limit pieces ending).violation hbears hdecoded hend
      exact ⟨text, hread⟩

/-- A body that is no member is reported. -/
theorem takes_first_of_damaged_body :
    let head := Bytes.ofText "HTTP/1.1 200 OK\r\nContent-Encoding: gzip\r\nContent-Length: 4\r\n\r\n"
    let h : ResponseHead := ⟨.http11, 200, [⟨"Content-Encoding", Bytes.ofText "gzip"⟩, ⟨"Content-Length", [52]⟩]⟩
    let body := Bytes.ofText "nope"
    gunzip body 100 = .error .cutOff ∧ Bears false 100 [head ++ body].flatten h body ∧
      ∃ text, ClientResponse.read false 100 [head ++ body] .closed = .error (.protocolViolation text) := by
  intro head h body
  have hgunzip : gunzip body 100 = .error .cutOff := by decide +kernel
  have hopens : Opens false [head ++ body].flatten h (.length 4) body := ⟨⟨_, .refl, rfl⟩, rfl, by decide⟩
  have hfound : (Framing.length 4).decode 100 body = .ok (some (body, [])) := by decide
  have hbears : Bears false 100 [head ++ body].flatten h body := .ended hopens hfound
  have hnone : ∀ content rest, Leads body content rest → 100 < content.length := by
    intro content rest hleads
    by_contra hle
    have hok := ((takes_first body 100).ok_iff content).2 ⟨Nat.le_of_not_lt hle, rest, hleads⟩
    rw [hgunzip] at hok
    cases hok
  exact ⟨hgunzip, hbears,
    (takes_first body 100).reported false _ .closed h hbears (by decide) (by decide) hnone (.inl rfl)⟩

/-- A member that stores one byte. -/
def storedByte (x : UInt8) : Bytes :=
  [31, 139, 8, 0, 0, 0, 0, 0, 0, 255] ++
    ([1, 1, 0, 254, 255, x] ++ (Bytes.toLittleEndian 4 (crc32 [x]).toNat ++ [1, 0, 0, 0]))

theorem littleEndian_toLittleEndian (w n : Nat) : Bytes.littleEndian (Bytes.toLittleEndian w n) = n % 256 ^ w := by
  induction w generalizing n with
  | zero => rw [Bytes.toLittleEndian, Bytes.littleEndian, Nat.pow_zero, Nat.mod_one]
  | succ w ih =>
    have hbyte : ((n % 256).toUInt8).toNat = n % 256 := by
      rw [Nat.toUInt8_eq, UInt8.toNat_ofNat_of_lt' (Nat.mod_lt n (by decide))]
    rw [Bytes.toLittleEndian, Bytes.littleEndian, ih, hbyte, Nat.pow_succ', Nat.mod_mul]

theorem isMember_storedByte (x : UInt8) : IsMember (storedByte x) [x] := by
  have header : IsHeader [31, 139, 8, 0, 0, 0, 0, 0, 0, 255] :=
    @IsHeader.intro 0 [0, 0, 0, 0, 0, 255] [] [] [] [] (by decide) rfl rfl rfl rfl rfl
  have block : IsBlock 1 _ [] [x] := @IsBlock.stored 1 (List.replicate 5 false) (lowBits 16 1) (lowBits 16 65534) [] [x]
    rfl (by decide) ⟨rfl, rfl⟩ ⟨rfl, rfl⟩
  have stream : IsStream [1, 1, 0, 254, 255, x] [x] := ⟨_, [], rfl, by decide, .last block⟩
  refine .intro header stream ⟨_, _, rfl, rfl, rfl, ?_, rfl⟩
  rw [littleEndian_toLittleEndian]
  exact Nat.mod_eq_of_lt (crc32 [x]).toNat_lt

/-- Of two members the second is lost, and so is a byte that is no member, without any error. -/
theorem second_member_lost :
    gunzip (storedByte 97 ++ storedByte 98) 100 = .ok [97] ∧
      IsMembers (storedByte 97 ++ storedByte 98) [97, 98] ∧ ¬ IsMembers (storedByte 97 ++ storedByte 98) [97] ∧
      gunzip (storedByte 97 ++ [0]) 100 = .ok [97] ∧ ∀ content, ¬ IsMembers (storedByte 97 ++ [0]) content := by
  have hfirst : ∀ rest, Leads (storedByte 97 ++ rest) [97] rest := fun rest => ⟨_, rfl, isMember_storedByte 97⟩
  have hsecond := IsMembers.one (isMember_storedByte 98)
  have hgunzip : ∀ rest, gunzip (storedByte 97 ++ rest) 100 = .ok [97] := fun rest =>
    gunzip_eq_ok_iff.2 ⟨by decide, rest, hfirst rest⟩
  refine ⟨hgunzip _, .more (isMember_storedByte 97) hsecond, fun h => ?_, hgunzip _, fun content h => ?_⟩
  · rcases (hfirst (storedByte 98)).isMembers_iff.1 h with hnil | hnone
    · cases hnil
    · obtain ⟨content, rest, hleads, hend⟩ := hnone.leads
      obtain ⟨rfl, rfl⟩ := hleads.unique ⟨storedByte 98, (List.append_nil _).symm, isMember_storedByte 98⟩
      rcases hend with ⟨-, hcontent⟩ | ⟨others, -, hcontent⟩ <;> cases hcontent
  · obtain ⟨content, rest, hleads, hend⟩ := h.leads
    obtain ⟨rfl, rfl⟩ := hleads.unique (hfirst [0])
    rcases hend with ⟨hnil, -⟩ | ⟨others, hothers, -⟩
    · cases hnil
    · -- one byte is no header
      obtain ⟨_, rest, hleads, -⟩ := hothers.leads
      obtain ⟨stream, tail, hheader, -⟩ := (leads_iff (Nat.lt_succ_self _)).1 hleads
      cases hheader

end Gzip

end Hypertext
