/-
The parts of a URL are visible: host, path and query have neither blanks nor control characters, so that they come
through in the head of a request, and no path has a question mark, so that it can be told from the query.
-/
import Hypertext.Client.Target
import Hypertext.Proofs.Message.FieldText

namespace Hypertext

/-! ## Visible text -/

namespace Text

/-- A character that is neither a control character of ASCII nor a space. -/
def IsVisible (c : Char) : Prop := 0x20 < c.toNat ∧ c.toNat ≠ 0x7f

instance (c : Char) : Decidable (IsVisible c) := inferInstanceAs (Decidable (_ ∧ _))

/-- All characters of a text have a property. -/
def All (P : Char → Prop) (s : String) : Prop := ∀ c ∈ s.toList, P c

variable {P : Char → Prop} {s t : String}

theorem all_ofList {cs : List Char} : All P (String.ofList cs) ↔ ∀ c ∈ cs, P c := by
  rw [All, String.toList_ofList]

theorem All.mono {Q : Char → Prop} (h : All P s) (hpq : ∀ c, P c → Q c) : All Q s := fun c hc => hpq c (h c hc)

theorem All.append (hs : All P s) (ht : All P t) : All P (s ++ t) := by
  intro c hc
  rw [String.toList_append] at hc
  rcases List.mem_append.1 hc with hc | hc
  · exact hs c hc
  · exact ht c hc

theorem All.intercalate {sep : String} (hsep : All P sep) : ∀ {texts : List String}, (∀ t ∈ texts, All P t) →
    All P (sep.intercalate texts)
  | [], _ => fun c hc => by simp at hc
  | [t], h => by
    rw [String.intercalate_singleton]
    exact h t List.mem_cons_self
  | t :: u :: texts, h => by
    rw [String.intercalate_cons_of_ne_nil (List.cons_ne_nil u texts)]
    have hlater : All P (sep.intercalate (u :: texts)) :=
      All.intercalate hsep fun v hv => h v (List.mem_cons_of_mem _ hv)
    exact ((h t List.mem_cons_self).append hsep).append hlater

theorem isVisible_digitChar {n : Nat} (h : n < 16) : IsVisible n.digitChar :=
  (by decide : ∀ i : Fin 16, IsVisible (Nat.digitChar i)) ⟨n, h⟩

/-- Numbers are written in digits. -/
theorem isVisible_of_mem_toDigits {base : Nat} (hbase : 1 < base) (hle : base ≤ 16) (n : Nat) :
    ∀ c ∈ Nat.toDigits base n, IsVisible c := by
  intro c hc
  rw [Nat.toDigits_eq_if hbase] at hc
  split at hc
  · rw [List.mem_singleton.1 hc]
    exact isVisible_digitChar (by omega)
  · rcases List.mem_append.1 hc with hc | hc
    · exact isVisible_of_mem_toDigits hbase hle (n / base) c hc
    · have hlt : n % base < base := Nat.mod_lt n (by omega)
      rw [List.mem_singleton.1 hc]
      exact isVisible_digitChar (by omega)
termination_by n
decreasing_by exact Nat.div_lt_self (by omega) hbase

theorem all_toString (n : Nat) : All IsVisible (toString n) := by
  rw [Nat.toString_eq_ofList_toDigits, all_ofList]
  exact isVisible_of_mem_toDigits (by decide) (by decide) n

end Text

namespace Head

theorem isTargetByte_of_isVisible {c : Char} (h : Text.IsVisible c) :
    ∀ b ∈ String.utf8EncodeChar c, isTargetByte b = true := by
  obtain ⟨hlow, hdel⟩ := h
  intro b hb
  by_cases hascii : c.toNat < 128
  · rw [Bytes.utf8EncodeChar_ascii hascii, List.mem_singleton] at hb
    subst hb
    have hn : (Bytes.ofChar c).toNat = c.toNat := Nat.mod_eq_of_lt (by omega)
    rw [isTargetByte, Bool.or_eq_true, Bool.and_eq_true]
    refine .inl ⟨decide_eq_true ?_, decide_eq_true ?_⟩
    · rw [UInt8.le_iff_toNat_le, hn]
      exact hlow
    · rw [UInt8.le_iff_toNat_le, hn]
      show c.toNat ≤ 126
      omega
  · have hhigh := Bytes.high_of_mem_utf8EncodeChar (Nat.le_of_not_lt hascii) hb
    rw [isTargetByte, Bool.or_eq_true]
    refine .inr (decide_eq_true ?_)
    rw [UInt8.le_iff_toNat_le]
    exact hhigh

theorem isTargetByte_of_all {s : String} (h : Text.All Text.IsVisible s) : ∀ b ∈ Bytes.ofText s, isTargetByte b = true := by
  intro b hb
  rw [← String.ofList_toList (s := s), Bytes.ofText_ofList] at hb
  obtain ⟨c, hc, hb⟩ := List.mem_flatMap.1 hb
  exact isTargetByte_of_isVisible (h c hc) b hb

theorem isValueByte_of_isTargetByte : ∀ b : UInt8, isTargetByte b = true → isValueByte b = true ∧ isGap b = false :=
  Bytes.forall_byte (by decide +kernel)

end Head

/-- Visible text may be the value of a field. -/
theorem isFieldText_of_all {s : String} (h : Text.All Text.IsVisible s) : IsFieldText s := by
  have hbytes : ∀ b ∈ Bytes.ofText s, Head.isValueByte b = true ∧ Head.isGap b = false :=
    fun b hb => Head.isValueByte_of_isTargetByte b (Head.isTargetByte_of_all h b hb)
  exact ⟨fun b hb => (hbytes b hb).1, fun b hb => (hbytes b (List.mem_of_mem_head? hb)).2,
    fun b hb => (hbytes b (List.mem_of_mem_getLast? hb)).2⟩

namespace Url

open Text

/-! ## Paths and queries -/

/-- A character that may be in the path of a target. -/
def IsPathChar (c : Char) : Prop := IsVisible c ∧ c ≠ '?'

instance (c : Char) : Decidable (IsPathChar c) := inferInstanceAs (Decidable (_ ∧ _))

theorem isPathChar_of_mem_percentByte (b : UInt8) : ∀ c ∈ percentByte b, IsPathChar c := by
  have hall : ∀ b : UInt8, ((percentByte b).all fun c => decide (IsPathChar c)) = true :=
    Bytes.forall_byte (by decide +kernel)
  exact fun c hc => of_decide_eq_true (List.all_eq_true.1 (hall b) c hc)

/-- What is left of a text when it is encoded are the characters that need not be. -/
theorem mem_percentEncode {escape : Char → Bool} {cs : List Char} {c : Char} (h : c ∈ percentEncode escape cs) :
    IsPathChar c ∨ escape c = false ∧ c.toNat < 0x7f := by
  obtain ⟨d, -, hc⟩ := List.mem_flatMap.1 h
  unfold encodeChar at hc
  split at hc
  · obtain ⟨b, -, hb⟩ := List.mem_flatMap.1 hc
    exact .inl (isPathChar_of_mem_percentByte b c hb)
  · next hplain =>
    rw [Bool.or_eq_true, not_or, Bool.not_eq_true, decide_eq_true_eq] at hplain
    rw [List.mem_singleton.1 hc]
    exact .inr ⟨hplain.1, by omega⟩

theorem isVisible_of_plain {c : Char} (hcontrol : isControl c = false) (hspace : c ≠ ' ') (hlow : c.toNat < 0x7f) :
    IsVisible c := by
  have hne : c.toNat ≠ 0x20 := fun h => hspace (Char.toNat_inj.1 h)
  rw [isControl, decide_eq_false_iff_not] at hcontrol
  exact ⟨by omega, by omega⟩

theorem all_percentEncode_path (cs : List Char) : All IsPathChar (String.ofList (percentEncode escapeInPath cs)) := by
  rw [all_ofList]
  intro c hc
  rcases mem_percentEncode hc with h | ⟨h, hlow⟩
  · exact h
  · simp only [escapeInPath, Bool.or_eq_false_iff, List.contains_eq_mem, List.mem_cons, List.not_mem_nil, or_false,
      decide_eq_false_iff_not, not_or] at h
    exact ⟨isVisible_of_plain h.1 h.2.1 hlow, h.2.2.2.2.2.2.2.1⟩

theorem all_percentEncode_query (cs : List Char) : All IsVisible (String.ofList (percentEncode escapeInQuery cs)) := by
  rw [all_ofList]
  intro c hc
  rcases mem_percentEncode hc with h | ⟨h, hlow⟩
  · exact h.1
  · simp only [escapeInQuery, Bool.or_eq_false_iff, List.contains_eq_mem, List.mem_cons, List.not_mem_nil, or_false,
      decide_eq_false_iff_not, not_or] at h
    exact isVisible_of_plain h.1 h.2.1 hlow

theorem mem_parent {segments : List String} {s : String} (h : s ∈ parent segments) : s ∈ segments := by
  unfold parent at h
  split at h
  · split at h
    · exact h
    · exact List.dropLast_subset _ h
  · cases h

/-- Steps are taken among the segments, and at most an empty one is added. -/
theorem mem_takeSteps : ∀ {segments walked : List String} {s : String}, s ∈ takeSteps walked segments →
    s ∈ walked ∨ s ∈ segments ∨ s = ""
  | [], _, _, h => .inl h
  | t :: rest, walked, s, h => by
    -- whatever of the walked segments a step keeps, it brings in no segment from elsewhere
    have hstep : ∀ kept : List String, (∀ u ∈ kept, u ∈ walked ∨ u ∈ t :: rest ∨ u = "") →
        s ∈ takeSteps kept rest → s ∈ walked ∨ s ∈ t :: rest ∨ s = "" := by
      intro kept hkept hs
      rcases mem_takeSteps hs with hs | hs | hs
      · exact hkept s hs
      · exact .inr (.inl (List.mem_cons_of_mem _ hs))
      · exact .inr (.inr hs)
    have hclosing : ∀ u ∈ (if rest.isEmpty then [""] else []), u = "" := by
      intro u hu
      split at hu
      · exact List.mem_singleton.1 hu
      · cases hu
    unfold takeSteps at h
    dsimp only at h
    generalize (if rest.isEmpty then [""] else []) = closing at h hclosing
    split_ifs at h
    · refine hstep _ (fun u hu => ?_) h
      rcases List.mem_append.1 hu with hu | hu
      · exact .inl (mem_parent hu)
      · exact .inr (.inr (hclosing u hu))
    · refine hstep _ (fun u hu => ?_) h
      rcases List.mem_append.1 hu with hu | hu
      · exact .inl hu
      · exact .inr (.inr (hclosing u hu))
    · refine hstep _ (fun u hu => ?_) h
      rcases List.mem_append.1 hu with hu | hu
      · exact .inl hu
      · exact .inr (.inl (List.mem_singleton.1 hu ▸ List.mem_cons_self))

theorem all_readPath (cs : List Char) : All IsPathChar (readPath cs) := by
  have hslash : All IsPathChar "/" := by
    intro c hc
    rw [show ("/" : String).toList = ['/'] from rfl, List.mem_singleton] at hc
    rw [hc]
    decide
  refine hslash.append (hslash.intercalate fun s hs => ?_)
  rcases mem_takeSteps hs with hs | hs | rfl
  · cases hs
  · obtain ⟨t, -, rfl⟩ := List.mem_map.1 hs
    exact all_percentEncode_path t
  · intro c hc
    cases hc

theorem all_queryOf {cs : List Char} {query : String} (h : queryOf cs = some query) : All IsVisible query := by
  unfold queryOf at h
  split at h
  · cases h
    exact all_percentEncode_query _
  · cases h

/-! ## Hosts -/

theorem isVisible_of_isForbidden {c : Char} (h : isForbidden c = false) : IsVisible c := by
  rw [isForbidden, Bool.or_eq_false_iff, Bool.or_eq_false_iff, decide_eq_false_iff_not, beq_eq_false_iff_ne] at h
  exact ⟨by omega, h.1.2⟩

theorem all_asciiName {bytes : Bytes} {name : String} (h : asciiName? bytes = some name) : All IsVisible name := by
  unfold asciiName? at h
  obtain ⟨text, -, h⟩ := Option.bind_eq_some_iff.1 h
  obtain ⟨labels, -, h⟩ := Option.bind_eq_some_iff.1 h
  dsimp only at h
  split at h
  · cases h
  · next hnone =>
    cases h
    rw [all_ofList]
    rw [Bool.not_eq_true, List.any_eq_false] at hnone
    exact fun c hc => isVisible_of_isForbidden (Bool.eq_false_iff.2 (hnone c hc))

theorem all_singleton {c : Char} (h : IsVisible c) : All IsVisible (String.ofList [c]) := by
  rw [all_ofList]
  intro d hd
  rwa [List.mem_singleton.1 hd]

theorem all_ipv4 (ip : Net.Ipv4) : All IsVisible ip.text := by
  have hpoint : All IsVisible "." := all_singleton (c := '.') (by decide)
  exact ((((((all_toString ip.a).append hpoint).append (all_toString ip.b)).append hpoint).append
    (all_toString ip.c)).append hpoint).append (all_toString ip.d)

theorem all_ipv6 (ip : Net.Ipv6) : All IsVisible ip.compressed := by
  have hcolon : All IsVisible ":" := all_singleton (c := ':') (by decide)
  have hpart : ∀ groups : List Nat, All IsVisible (":".intercalate (groups.map Text.hex)) := by
    intro groups
    refine hcolon.intercalate fun t ht => ?_
    obtain ⟨n, -, rfl⟩ := List.mem_map.1 ht
    exact all_ofList.2 (isVisible_of_mem_toDigits (by decide) (by decide) n)
  unfold Net.Ipv6.compressed
  dsimp only
  split
  · exact hpart _
  · exact ((hpart _).append (hcolon.append hcolon)).append (hpart _)

theorem all_bracketed {text host : String} (h : bracketed text = .ok host) : All IsVisible host := by
  unfold bracketed at h
  split at h
  · cases h
    exact ((all_singleton (c := '[') (by decide)).append (all_ipv6 _)).append (all_singleton (c := ']') (by decide))
  · cases h

theorem all_readHost {text host : String} (h : readHost text = .ok host) : All IsVisible host := by
  unfold readHost at h
  split at h
  · split at h
    · exact all_bracketed h
    · cases h
  · split at h
    · cases h
    · cases h
    · next name hname =>
      split at h
      · split at h
        · cases h
          exact all_ipv4 _
        · cases h
      · cases h
        exact all_asciiName hname

/-! ## Whole URLs -/

/-- What is known of a URL that a client may be sent to. -/
structure IsVisible (u : Url) : Prop where
  host : All Text.IsVisible u.host
  path : All IsPathChar u.path
  absolute : ∃ rest, u.path = "/" ++ rest
  query : ∀ query ∈ u.query, All Text.IsVisible query

theorem visible_hostAndPort {authority : List Char} {parts : String × Option Nat}
    (h : hostAndPort true authority = .ok parts) : All Text.IsVisible parts.1 := by
  unfold hostAndPort at h
  dsimp only at h
  split at h
  · cases h
  · cases hread : readHost (String.ofList (splitPort false (afterUser authority)).1) with
    | error e =>
      rw [if_pos rfl, hread] at h
      cases h
    | ok host =>
      rw [if_pos rfl, hread] at h
      have hhost := all_readHost hread
      dsimp only [bind, Except.bind] at h
      split at h
      · split at h
        · cases h
        · cases h
          exact hhost
      · cases h
        exact hhost

/-- The parts of a URL after its scheme, once its host has been read. -/
theorem afterSlashes_eq_ok {scheme : String} {cs : List Char} {u : Url} (h : afterSlashes scheme cs = .ok u) :
    ∃ authority parts path query, hostAndPort (defaultPort? scheme).isSome authority = .ok parts ∧
      u.scheme = scheme ∧ u.host = parts.1 ∧ u.path = readPath path ∧ u.query = queryOf query := by
  unfold afterSlashes at h
  dsimp only at h
  cases hparts : hostAndPort (defaultPort? scheme).isSome
      (cs.takeWhile fun c => !endsAuthority (defaultPort? scheme).isSome c) with
  | error e =>
    rw [hparts] at h
    cases h
  | ok parts =>
    rw [hparts] at h
    cases h
    exact ⟨_, parts, _, _, hparts, rfl, rfl, rfl, rfl⟩

theorem scheme_ofFile {cs : List Char} {u : Url} (h : ofFile cs = .ok u) : u.scheme = "file" := by
  unfold ofFile at h
  dsimp only at h
  split at h
  · split at h
    · dsimp only [bind, Except.bind] at h
      split at h
      · cases h
        rfl
      · split at h
        · cases h
        · cases h
          rfl
    · cases h
      rfl
  · cases h
    rfl

/-- A URL of plain HTTP is visible. -/
theorem visible_of_parse {text : String} {u : Url} (h : parse text = .ok u) (hscheme : u.scheme = "http") :
    u.IsVisible := by
  have hall : ∀ {scheme cs}, afterSlashes scheme cs = .ok u → u.IsVisible := by
    intro scheme cs hread
    obtain ⟨authority, parts, path, query, hparts, hs, hhost, hpath, hquery⟩ := afterSlashes_eq_ok hread
    rw [← hs, hscheme] at hparts
    refine ⟨?_, ?_, ⟨_, hpath⟩, ?_⟩
    · rw [hhost]
      exact visible_hostAndPort hparts
    · rw [hpath]
      exact all_readPath path
    · rw [hquery]
      exact fun _ hsome => all_queryOf hsome
  unfold parse at h
  split at h
  · cases h
  · next scheme rest _ =>
    split_ifs at h with hknown hfile
    · exact hall h
    · rw [scheme_ofFile h] at hscheme
      exact absurd hscheme (by decide)
    · split at h
      · exact hall h
      · cases h
        rw [show scheme = "http" from hscheme] at hknown
        exact absurd rfl hknown

end Url

namespace Target

/-- The URL that a client takes from a text is visible, and its host is the target's. -/
theorem visible_of_parse {text : String} {u : Url} {t : Target} (h : parse text = .ok (u, t)) :
    u.IsVisible ∧ t.host = u.host := by
  unfold parse at h
  cases hurl : Url.parse text with
  | error e =>
    rw [hurl] at h
    cases h
  | ok url =>
    rw [hurl] at h
    dsimp only [Except.mapError, bind, Except.bind] at h
    unfold ofUrl at h
    split at h
    · cases h
    · next target htarget =>
      split at htarget
      · next hscheme =>
        cases h
        cases htarget
        exact ⟨Url.visible_of_parse hurl (eq_of_beq hscheme), rfl⟩
      · cases htarget

theorem all_authority {t : Target} (h : Text.All Text.IsVisible t.host) : Text.All Text.IsVisible t.authority := by
  unfold authority
  split
  · exact h
  · have hcolon : Text.All Text.IsVisible ":" := Url.all_singleton (c := ':') (by decide)
    exact (h.append hcolon).append (Text.all_toString t.port)

end Target

end Hypertext
