/-
Gzip members as a grammar: a header with the parts that its flags announce, a compressed stream, and the checksum and
the length of its content. A byte string is decompressed exactly if it begins with a member within the limit; the member
is determined by that, and what follows it does not matter.
-/
import Hypertext.Gzip.Member
import Hypertext.Proofs.Gzip.Stream
import Mathlib.Data.List.TakeWhile

namespace Hypertext.Gzip

/-! ## Members -/

/-- A part of a header that is only there if a flag announces it. -/
def IsAnnounced (flag : Bool) (P : Bytes → Prop) (part : Bytes) : Prop := if flag then P part else part = []

/-- An extra field: its size in two bytes, and as many bytes. -/
def IsField (part : Bytes) : Prop :=
  ∃ size field, part = size ++ field ∧ size.length = 2 ∧ field.length = Bytes.littleEndian size

/-- A text that is not too long, and the zero byte that ends it. -/
def IsText (part : Bytes) : Prop := ∃ text, part = text ++ [0] ∧ (∀ b ∈ text, b ≠ 0) ∧ text.length ≤ maxFieldLength

/-- The checksum of what stands before it in the header. -/
def IsSum (before part : Bytes) : Prop :=
  part.length = 2 ∧ Bytes.littleEndian part = (crc32 before).toNat % 65536

/-- A bit of the flags. -/
def announces (flags : UInt8) (bit : Nat) : Bool := flags.toNat >>> bit % 2 == 1

/-- The header of a member. -/
inductive IsHeader : Bytes → Prop
  | intro {flags : UInt8} {system extra name comment sum : Bytes} (known : flags.toNat < 32)
      (length_system : system.length = 6) (extra_form : IsAnnounced (announces flags 2) IsField extra)
      (name_form : IsAnnounced (announces flags 3) IsText name)
      (comment_form : IsAnnounced (announces flags 4) IsText comment)
      (sum_form : IsAnnounced (announces flags 1)
        (IsSum (0x1f :: 0x8b :: 8 :: flags :: (system ++ (extra ++ (name ++ comment))))) sum) :
      IsHeader ((0x1f :: 0x8b :: 8 :: flags :: (system ++ (extra ++ (name ++ comment)))) ++ sum)

/-- The checksum of a content and its length, as far as four bytes tell it. -/
def IsTrailer (content part : Bytes) : Prop :=
  ∃ sum length, part = sum ++ length ∧ sum.length = 4 ∧ length.length = 4 ∧
    Bytes.littleEndian sum = (crc32 content).toNat ∧ Bytes.littleEndian length = content.length % UInt32.size

/-- A member with this content. -/
inductive IsMember : Bytes → (content : Bytes) → Prop
  | intro {header stream trailer content : Bytes} (header_form : IsHeader header) (stream_form : IsStream stream content)
      (trailer_form : IsTrailer content trailer) : IsMember (header ++ (stream ++ trailer)) content

/-- A byte string begins with a member with this content, and these bytes follow. -/
def Leads (b content rest : Bytes) : Prop := ∃ member, b = member ++ rest ∧ IsMember member content

/-! ## Taking parts off the front -/

variable {b before content content' rest rest' : Bytes} {limit : Nat}

theorem takeBytes_eq_ok_iff {n : Nat} {part : Bytes} :
    takeBytes n b = .ok (part, rest) ↔ b = part ++ rest ∧ part.length = n := by
  unfold takeBytes
  constructor
  · intro h
    split at h
    · cases h
    · next hlt =>
      cases h
      exact ⟨(List.take_append_drop n b).symm, List.length_take_of_le (Nat.le_of_not_lt hlt)⟩
  · rintro ⟨rfl, rfl⟩
    rw [if_neg (by simp), List.take_left, List.drop_left]

theorem drop_takeWhile (p : UInt8 → Bool) (b : Bytes) : b.drop (b.takeWhile p).length = b.dropWhile p := by
  have hsplit : (b.takeWhile p ++ b.dropWhile p).drop (b.takeWhile p).length = b.dropWhile p := List.drop_left
  rwa [List.takeWhile_append_dropWhile] at hsplit

theorem skipText_eq_ok_iff : skipText b = .ok rest ↔ ∃ part, b = part ++ rest ∧ IsText part := by
  unfold skipText
  dsimp only
  rw [drop_takeWhile]
  constructor
  · intro h
    split at h
    · cases h
    · next hshort =>
      split at h
      · cases h
      · next z after hdrop =>
        cases h
        have hzero := List.head?_dropWhile_not (· != 0) b
        rw [hdrop] at hzero
        obtain rfl : z = 0 := by simpa using hzero
        refine ⟨b.takeWhile (· != 0) ++ [0], ?_, _, rfl, ?_, Nat.le_of_not_lt hshort⟩
        · rw [List.append_assoc, List.singleton_append, ← hdrop, List.takeWhile_append_dropWhile]
        · intro x hx
          simpa using List.mem_takeWhile_imp hx
  · rintro ⟨_, rfl, text, rfl, hnonzero, hlength⟩
    have hall : ∀ x ∈ text, (x != 0) = true := fun x hx => bne_iff_ne.2 (hnonzero x hx)
    rw [List.append_assoc, List.takeWhile_append_of_pos hall, List.dropWhile_append_of_pos hall]
    simp only [List.singleton_append]
    rw [List.takeWhile_cons_of_neg (by simp), List.dropWhile_cons_of_neg (by simp), List.append_nil,
      if_neg (Nat.not_lt.2 hlength)]

/-- Passes an extra field. -/
def skipField (b : Bytes) : Except Error Bytes := do
  let (size, rest) ← takeBytes 2 b
  let (_, rest) ← takeBytes (Bytes.littleEndian size) rest
  return rest

theorem skipField_eq_ok_iff : skipField b = .ok rest ↔ ∃ part, b = part ++ rest ∧ IsField part := by
  unfold skipField
  constructor
  · intro h
    rw [bind_eq_ok_iff] at h
    obtain ⟨⟨size, later⟩, hsize, h⟩ := h
    rw [bind_eq_ok_iff] at h
    obtain ⟨⟨field, later'⟩, hfield, h⟩ := h
    cases h
    obtain ⟨rfl, hlength⟩ := takeBytes_eq_ok_iff.1 hsize
    obtain ⟨rfl, hlength'⟩ := takeBytes_eq_ok_iff.1 hfield
    exact ⟨size ++ field, (List.append_assoc _ _ _).symm, size, field, rfl, hlength, hlength'⟩
  · rintro ⟨_, rfl, size, field, rfl, hlength, hlength'⟩
    refine bind_eq_ok_iff.2 ⟨(size, field ++ rest), takeBytes_eq_ok_iff.2 ⟨List.append_assoc _ _ _, hlength⟩, ?_⟩
    exact bind_eq_ok_iff.2 ⟨(field, rest), takeBytes_eq_ok_iff.2 ⟨rfl, hlength'⟩, rfl⟩

/-- Passes the checksum of what has been read of a header. -/
def skipSum (b rest : Bytes) : Except Error Bytes := do
  let (sum, after) ← takeBytes 2 rest
  if Bytes.littleEndian sum ≠ (crc32 (b.take (b.length - rest.length))).toNat % 65536 then throw .wrongChecksum
  return after

theorem skipSum_eq_ok_iff {b' : Bytes} :
    skipSum (before ++ b') b' = .ok rest ↔ ∃ part, b' = part ++ rest ∧ IsSum before part := by
  have hread : (before ++ b').take ((before ++ b').length - b'.length) = before := by
    rw [List.length_append, Nat.add_sub_cancel, List.take_left]
  unfold skipSum
  rw [hread]
  constructor
  · intro h
    rw [bind_eq_ok_iff] at h
    obtain ⟨⟨sum, after⟩, hsum, h⟩ := h
    obtain ⟨rfl, hlength⟩ := takeBytes_eq_ok_iff.1 hsum
    dsimp only at h
    split at h
    · cases h
    · next heq =>
      cases h
      exact ⟨sum, rfl, hlength, not_not.1 heq⟩
  · rintro ⟨sum, rfl, hlength, heq⟩
    refine bind_eq_ok_iff.2 ⟨(sum, rest), takeBytes_eq_ok_iff.2 ⟨rfl, hlength⟩, ?_⟩
    dsimp only
    rw [if_neg (not_not.2 heq)]
    rfl

/-- The parts of a header that a flag announces. -/
def optional (flag : Bool) (skip : Bytes → Except Error Bytes) (b : Bytes) : Except Error Bytes :=
  if flag then skip b else .ok b

theorem optional_eq_ok_iff {flag : Bool} {skip : Bytes → Except Error Bytes} {P : Bytes → Prop}
    (h : ∀ rest, skip b = .ok rest ↔ ∃ part, b = part ++ rest ∧ P part) :
    optional flag skip b = .ok rest ↔ ∃ part, b = part ++ rest ∧ IsAnnounced flag P part := by
  cases flag with
  | true => exact h rest
  | false =>
    constructor
    · intro hb
      cases hb
      exact ⟨[], rfl, rfl⟩
    · rintro ⟨part, rfl, rfl⟩
      rfl

theorem optional_bind {α : Type} (flag : Bool) (skip : Bytes → Except Error Bytes) (b : Bytes)
    (f : Bytes → Except Error α) :
    optional flag skip b >>= f = if flag = true then skip b >>= f else pure b >>= f := by
  cases flag <;> rfl

theorem skipField_bind {α : Type} (b : Bytes) (f : Bytes → Except Error α) : skipField b >>= f = (do
    let (size, rest) ← takeBytes 2 b
    let (_, rest) ← takeBytes (Bytes.littleEndian size) rest
    let rest ← pure rest
    f rest) := by
  unfold skipField
  rw [bind_assoc]
  refine bind_congr fun first => ?_
  rw [bind_assoc]

theorem skipHeader_eq (b : Bytes) : skipHeader b = (do
    let (fixed, rest) ← takeBytes 10 b
    let flags := fixed.getD 3 0
    if fixed.take 3 != [0x1f, 0x8b, 8] || 32 ≤ flags.toNat then throw .badHeader
    let rest ← optional (announces flags 2) skipField rest
    let rest ← optional (announces flags 3) skipText rest
    let rest ← optional (announces flags 4) skipText rest
    optional (announces flags 1) (skipSum b) rest) := by
  unfold skipHeader
  refine bind_congr fun first => ?_
  dsimp only
  refine ite_congr rfl (fun _ => rfl) fun _ => ?_
  simp only [optional_bind, skipField_bind]
  rfl

/-- The bytes that every header has. -/
theorem exists_fixed {fixed : Bytes} (hlength : fixed.length = 10) (hmagic : fixed.take 3 = [0x1f, 0x8b, 8]) :
    ∃ flags system, fixed = 0x1f :: 0x8b :: 8 :: flags :: system ∧ system.length = 6 := by
  have hrest : (fixed.drop 3).length = 6 + 1 := by rw [List.length_drop, hlength]
  obtain ⟨flags, system, hsystem⟩ := List.exists_cons_of_length_eq_add_one hrest
  rw [hsystem] at hrest
  refine ⟨flags, system, ?_, Nat.succ.inj hrest⟩
  rw [← List.take_append_drop 3 fixed, hmagic, hsystem]
  rfl

theorem skipHeader_eq_ok_iff : skipHeader b = .ok rest ↔ ∃ header, b = header ++ rest ∧ IsHeader header := by
  rw [skipHeader_eq]
  constructor
  · intro h
    rw [bind_eq_ok_iff] at h
    obtain ⟨⟨fixed, later⟩, hfixed, h⟩ := h
    obtain ⟨rfl, hlength⟩ := takeBytes_eq_ok_iff.1 hfixed
    dsimp only at h
    split at h
    · cases h
    next hguard =>
    rw [Bool.or_eq_true, not_or, bne_iff_ne, not_not, decide_eq_true_eq, Nat.not_le] at hguard
    obtain ⟨flags, system, rfl, length_system⟩ := exists_fixed hlength hguard.1
    rw [bind_eq_ok_iff] at h
    obtain ⟨later, hextra, h⟩ := h
    obtain ⟨extra, rfl, extra_form⟩ := (optional_eq_ok_iff fun _ => skipField_eq_ok_iff).1 hextra
    rw [bind_eq_ok_iff] at h
    obtain ⟨later, hname, h⟩ := h
    obtain ⟨name, rfl, name_form⟩ := (optional_eq_ok_iff fun _ => skipText_eq_ok_iff).1 hname
    rw [bind_eq_ok_iff] at h
    obtain ⟨later, hcomment, h⟩ := h
    obtain ⟨comment, rfl, comment_form⟩ := (optional_eq_ok_iff fun _ => skipText_eq_ok_iff).1 hcomment
    have hbefore : 0x1f :: 0x8b :: 8 :: flags :: system ++ (extra ++ (name ++ (comment ++ later))) =
        0x1f :: 0x8b :: 8 :: flags :: (system ++ (extra ++ (name ++ comment))) ++ later := by simp
    rw [hbefore] at h ⊢
    obtain ⟨sum, rfl, sum_form⟩ := (optional_eq_ok_iff fun _ => skipSum_eq_ok_iff).1 h
    exact ⟨_, (List.append_assoc _ _ _).symm,
      .intro hguard.2 length_system extra_form name_form comment_form sum_form⟩
  · rintro ⟨_, rfl, form⟩
    cases form with
    | @intro flags system extra name comment sum known length_system extra_form name_form comment_form sum_form =>
    have hbefore : 0x1f :: 0x8b :: 8 :: flags :: system ++ (extra ++ (name ++ (comment ++ (sum ++ rest)))) =
        0x1f :: 0x8b :: 8 :: flags :: (system ++ (extra ++ (name ++ comment))) ++ (sum ++ rest) := by simp
    rw [List.append_assoc]
    refine bind_eq_ok_iff.2 ⟨(0x1f :: 0x8b :: 8 :: flags :: system, _),
      takeBytes_eq_ok_iff.2 ⟨hbefore.symm, congrArg (· + 4) length_system⟩, ?_⟩
    have hguard : ¬ (([0x1f, 0x8b, 8] : Bytes) != [0x1f, 0x8b, 8] || decide (32 ≤ flags.toNat)) = true := by
      simpa using known
    refine (if_neg hguard).trans ?_
    refine bind_eq_ok_iff.2 ⟨_, (optional_eq_ok_iff fun _ => skipField_eq_ok_iff).2 ⟨extra, rfl, extra_form⟩, ?_⟩
    refine bind_eq_ok_iff.2 ⟨_, (optional_eq_ok_iff fun _ => skipText_eq_ok_iff).2 ⟨name, rfl, name_form⟩, ?_⟩
    refine bind_eq_ok_iff.2 ⟨_, (optional_eq_ok_iff fun _ => skipText_eq_ok_iff).2 ⟨comment, rfl, comment_form⟩, ?_⟩
    exact (optional_eq_ok_iff fun _ => skipSum_eq_ok_iff).2 ⟨sum, rfl, sum_form⟩

theorem trailer_eq_ok_iff : (do
    let (sum, rest) ← takeBytes 4 b
    let (length, _) ← takeBytes 4 rest
    if Bytes.littleEndian sum ≠ (crc32 content).toNat || Bytes.littleEndian length ≠ content.length % UInt32.size then
      throw .wrongChecksum
    return content : Except Error Bytes) = .ok content' ↔
    content = content' ∧ ∃ trailer rest, b = trailer ++ rest ∧ IsTrailer content trailer := by
  constructor
  · intro h
    rw [bind_eq_ok_iff] at h
    obtain ⟨⟨sum, later⟩, hsum, h⟩ := h
    rw [bind_eq_ok_iff] at h
    obtain ⟨⟨length, rest⟩, hlength, h⟩ := h
    obtain ⟨rfl, length_sum⟩ := takeBytes_eq_ok_iff.1 hsum
    obtain ⟨rfl, length_length⟩ := takeBytes_eq_ok_iff.1 hlength
    dsimp only at h
    split at h
    · cases h
    · next hcheck =>
      rw [Bool.or_eq_true, decide_eq_true_eq, decide_eq_true_eq, not_or, not_not, not_not] at hcheck
      cases h
      exact ⟨rfl, sum ++ length, rest, (List.append_assoc _ _ _).symm, sum, length, rfl, length_sum, length_length,
        hcheck⟩
  · rintro ⟨rfl, _, rest, rfl, sum, length, rfl, length_sum, length_length, hcheck⟩
    rw [List.append_assoc]
    refine bind_eq_ok_iff.2 ⟨(sum, length ++ rest), takeBytes_eq_ok_iff.2 ⟨rfl, length_sum⟩, ?_⟩
    refine bind_eq_ok_iff.2 ⟨(length, rest), takeBytes_eq_ok_iff.2 ⟨rfl, length_length⟩, ?_⟩
    have hpass : ¬ (decide (Bytes.littleEndian sum ≠ (crc32 content).toNat) ||
        decide (Bytes.littleEndian length ≠ content.length % UInt32.size)) = true := by
      rw [Bool.or_eq_true, decide_eq_true_eq, decide_eq_true_eq, not_or, not_not, not_not]
      exact hcheck
    exact if_neg hpass

theorem IsTrailer.length {trailer : Bytes} (h : IsTrailer content trailer) : trailer.length = 8 := by
  obtain ⟨sum, length, rfl, length_sum, length_length, -⟩ := h
  rw [List.length_append, length_sum, length_length]

/-! ## Decompression -/

/-- How much output is made before a limit is taken to be exceeded. -/
def maxOutput (limit : Nat) : Nat := (limit / window + 1) * window

theorem lt_maxOutput (limit : Nat) : limit < maxOutput limit := by
  rw [maxOutput, window]
  omega

/-- A member is read in three steps, whatever the bound of the output is. -/
theorem leads_iff {bound : Nat} (hbound : content.length < bound) : Leads b content rest ↔
    ∃ stream tail, skipHeader b = .ok stream ∧ inflate bound stream = ⟨content.toArray, .finished tail⟩ ∧
      ∃ trailer, tail = trailer ++ rest ∧ IsTrailer content trailer := by
  constructor
  · rintro ⟨_, rfl, form⟩
    cases form with
    | @intro header stream trailer content header_form stream_form trailer_form =>
    refine ⟨stream ++ (trailer ++ rest), trailer ++ rest, ?_, ?_, trailer, rfl, trailer_form⟩
    · exact skipHeader_eq_ok_iff.2 ⟨header, by rw [List.append_assoc, List.append_assoc], header_form⟩
    · exact (inflate_eq_finished_iff hbound).2 ⟨stream, rfl, stream_form⟩
  · rintro ⟨_, _, hheader, hinflate, trailer, rfl, trailer_form⟩
    obtain ⟨header, rfl, header_form⟩ := skipHeader_eq_ok_iff.1 hheader
    obtain ⟨stream, rfl, stream_form⟩ := (inflate_eq_finished_iff hbound).1 hinflate
    exact ⟨header ++ (stream ++ trailer), by rw [List.append_assoc, List.append_assoc],
      .intro header_form stream_form trailer_form⟩

/-- A member at the front is there in one way only. -/
theorem Leads.unique (h : Leads b content rest) (h' : Leads b content' rest') : content = content' ∧ rest = rest' := by
  have hbound : content.length < content.length + content'.length + 1 := by omega
  have hbound' : content'.length < content.length + content'.length + 1 := by omega
  obtain ⟨stream, tail, hheader, hinflate, trailer, rfl, trailer_form⟩ := (leads_iff hbound).1 h
  obtain ⟨stream', tail', hheader', hinflate', trailer', rfl, trailer_form'⟩ := (leads_iff hbound').1 h'
  obtain rfl : stream = stream' := Except.ok.inj (hheader.symm.trans hheader')
  rw [hinflate, Inflated.mk.injEq, Ending.finished.injEq] at hinflate'
  exact ⟨List.toArray_inj hinflate'.1, (List.append_inj hinflate'.2 (trailer_form.length.trans trailer_form'.length.symm)).2⟩

/-- A byte string is decompressed within a limit exactly if it begins with a member whose content is not longer. -/
theorem gunzip_eq_ok_iff : gunzip b limit = .ok content ↔ content.length ≤ limit ∧ ∃ rest, Leads b content rest := by
  unfold gunzip
  constructor
  · intro h
    rw [bind_eq_ok_iff] at h
    obtain ⟨stream, hstream, h⟩ := h
    dsimp only at h
    split at h
    · cases h
    · cases h
    · cases h
    · next tail hending =>
      split at h
      · cases h
      next hlimit =>
      obtain ⟨rfl, trailer, rest, rfl, trailer_form⟩ := trailer_eq_ok_iff.1 h
      rw [Array.length_toList]
      have hle := Nat.le_of_not_lt hlimit
      refine ⟨hle, rest, (leads_iff (Nat.lt_of_le_of_lt ?_ (lt_maxOutput limit))).2
        ⟨stream, _, hstream, ?_, trailer, rfl, trailer_form⟩⟩
      · rw [Array.length_toList]
        exact hle
      · rw [Array.toArray_toList, ← hending]
        rfl
  · rintro ⟨hlimit, rest, hleads⟩
    obtain ⟨stream, tail, hstream, hinflate, trailer, rfl, trailer_form⟩ :=
      (leads_iff (Nat.lt_of_le_of_lt hlimit (lt_maxOutput limit))).1 hleads
    refine bind_eq_ok_iff.2 ⟨stream, hstream, ?_⟩
    rw [maxOutput] at hinflate
    rw [hinflate]
    dsimp only
    rw [if_neg (by rw [List.size_toArray]; exact Nat.not_lt.2 hlimit)]
    exact trailer_eq_ok_iff.2 ⟨rfl, trailer, rest, rfl, trailer_form⟩

end Hypertext.Gzip
