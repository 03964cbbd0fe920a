/-
Streams as bits. A cursor stands before the bits that are left of its bytes, and a reader is described by the words it
takes and what it makes of them: it succeeds exactly if such a word comes next, and then it stands behind that word.
-/
import Hypertext.Gzip.Deflate
import Mathlib.Algebra.GroupWithZero.Nat

namespace Hypertext.Gzip

/-! ## Words and numbers -/

/-- The bits of a byte string; the lowest of a byte comes first. -/
def bitsOf (b : Bytes) : List Bool := b.flatMap fun x => lowBits 8 x.toNat

/-- The number that bits write, the lowest first. -/
def number : List Bool → Nat
  | [] => 0
  | b :: w => b.toNat + 2 * number w

@[simp]
theorem length_lowBits (n v : Nat) : (lowBits n v).length = n := by
  induction n generalizing v with
  | zero => rfl
  | succ n ih => simp [lowBits, ih]

theorem getElem?_lowBits : ∀ {n i : Nat} (v : Nat), i < n → (lowBits n v)[i]? = some (v >>> i % 2 == 1)
  | n + 1, 0, v, _ => rfl
  | n + 1, i + 1, v, h => by
    rw [lowBits, List.getElem?_cons_succ, getElem?_lowBits (v / 2) (Nat.lt_of_succ_lt_succ h)]
    rw [Nat.shiftRight_succ_inside]

@[simp]
theorem bitsOf_nil : bitsOf [] = [] := rfl

@[simp]
theorem bitsOf_cons (x : UInt8) (b : Bytes) : bitsOf (x :: b) = lowBits 8 x.toNat ++ bitsOf b := rfl

@[simp]
theorem bitsOf_append (a b : Bytes) : bitsOf (a ++ b) = bitsOf a ++ bitsOf b := List.flatMap_append

@[simp]
theorem length_bitsOf (b : Bytes) : (bitsOf b).length = 8 * b.length := by
  induction b with
  | nil => rfl
  | cons x b ih =>
    rw [bitsOf_cons, List.length_append, length_lowBits, ih, List.length_cons]
    omega

theorem bitsOf_drop (n : Nat) (b : Bytes) : bitsOf (b.drop n) = (bitsOf b).drop (8 * n) := by
  rcases Nat.le_total n b.length with h | h
  · have htaken : (bitsOf (b.take n)).length = 8 * n := by
      rw [length_bitsOf, List.length_take, Nat.min_eq_left h]
    have hsplit : bitsOf b = bitsOf (b.take n) ++ bitsOf (b.drop n) := by
      rw [← bitsOf_append, List.take_append_drop]
    rw [hsplit, List.drop_left' htaken]
  · rw [List.drop_eq_nil_of_le h, List.drop_eq_nil_of_le (by rw [length_bitsOf]; omega), bitsOf_nil]

theorem number_lt (w : List Bool) : number w < 2 ^ w.length := by
  induction w with
  | nil => exact Nat.one_pos
  | cons b w ih =>
    have hbit := b.toNat_lt
    rw [number, List.length_cons, Nat.pow_succ]
    omega

theorem number_append (u v : List Bool) : number (u ++ v) = number u + 2 ^ u.length * number v := by
  induction u with
  | nil => simp [number]
  | cons b u ih =>
    rw [List.cons_append, number, ih, number, List.length_cons, Nat.pow_succ, Nat.mul_add, Nat.mul_comm _ 2,
      Nat.mul_assoc, Nat.add_assoc]

theorem number_lowBits (n v : Nat) : number (lowBits n v) = v % 2 ^ n := by
  induction n generalizing v with
  | zero => rw [lowBits, number, Nat.pow_zero, Nat.mod_one]
  | succ n ih =>
    have hbit : (v % 2 == 1).toNat = v % 2 := by
      rcases Nat.mod_two_eq_zero_or_one v with h | h <;> rw [h] <;> rfl
    rw [lowBits, number, ih, hbit, Nat.pow_succ', Nat.mod_mul]

theorem lowBits_number (w : List Bool) : lowBits w.length (number w) = w := by
  induction w with
  | nil => rfl
  | cons b w ih =>
    have hhalf : (b.toNat + 2 * number w) / 2 = number w := by
      have hbit := b.toNat_lt
      omega
    rw [List.length_cons, number, lowBits, hhalf, ih]
    cases b <;> simp

theorem bitsOf_injective : ∀ {a b : Bytes}, bitsOf a = bitsOf b → a = b
  | [], [], _ => rfl
  | [], _ :: _, h => by cases h
  | _ :: _, [], h => by cases h
  | x :: a, y :: b, h => by
    obtain ⟨hfirst, hrest⟩ := List.append_inj h (by rw [length_lowBits, length_lowBits])
    have hnumber := congrArg number hfirst
    rw [number_lowBits, number_lowBits, Nat.mod_eq_of_lt x.toNat_lt, Nat.mod_eq_of_lt y.toNat_lt] at hnumber
    rw [UInt8.toNat_inj.1 hnumber, bitsOf_injective hrest]

/-! ## Cursors -/

namespace Cursor

/-- What is left of the stream. -/
def bits (c : Cursor) : List Bool := (bitsOf c.bytes).drop c.taken

/-- The first byte is not taken as a whole, and no bit is taken of no byte. -/
structure Proper (c : Cursor) : Prop where
  taken_lt : c.taken < 8
  taken_le : c.taken ≤ 8 * c.bytes.length

/-- The place `n` bits further on. -/
def skip (n : Nat) (c : Cursor) : Cursor := ⟨c.bytes.drop ((c.taken + n) / 8), (c.taken + n) % 8⟩

variable {c : Cursor} {m n : Nat}

theorem length_bits (c : Cursor) : c.bits.length = 8 * c.bytes.length - c.taken := by
  rw [bits, List.length_drop, length_bitsOf]

theorem proper_start (b : Bytes) : Proper ⟨b, 0⟩ := ⟨Nat.succ_pos 7, Nat.zero_le _⟩

theorem bits_start (b : Bytes) : bits ⟨b, 0⟩ = bitsOf b := rfl

/-- Within a byte the next bit comes first. -/
theorem bits_cons (x : UInt8) (rest : Bytes) {taken : Nat} (h : taken < 8) :
    bits ⟨x :: rest, taken⟩ = (x.toNat >>> taken % 2 == 1) :: (bitsOf (x :: rest)).drop (taken + 1) := by
  have hget : (bitsOf (x :: rest))[taken]? = some (x.toNat >>> taken % 2 == 1) := by
    rw [bitsOf_cons, List.getElem?_append_left (by rw [length_lowBits]; exact h), getElem?_lowBits _ h]
  obtain ⟨hlt, hget⟩ := List.getElem?_eq_some_iff.1 hget
  rw [bits, List.drop_eq_getElem_cons hlt, hget]

theorem skip_zero (hc : c.Proper) : c.skip 0 = c := by
  rw [skip, Nat.add_zero, Nat.div_eq_of_lt hc.taken_lt, Nat.mod_eq_of_lt hc.taken_lt, List.drop_zero]

theorem skip_skip (m n : Nat) (c : Cursor) : (c.skip m).skip n = c.skip (m + n) := by
  simp only [skip, List.drop_drop, Cursor.mk.injEq]
  constructor
  · congr 1
    omega
  · omega

theorem bits_skip (n : Nat) (c : Cursor) : (c.skip n).bits = c.bits.drop n := by
  simp only [bits, skip, bitsOf_drop, List.drop_drop]
  congr 1
  omega

theorem Proper.skip (hc : c.Proper) (h : n ≤ c.bits.length) : (c.skip n).Proper := by
  have hle := hc.taken_le
  rw [length_bits] at h
  constructor
  · exact Nat.mod_lt _ (by decide)
  · simp only [Cursor.skip, List.length_drop]
    omega

/-- A word that comes next leaves what follows it. -/
theorem bits_skip_of_eq {w rest : List Bool} (h : c.bits = w ++ rest) : (c.skip w.length).bits = rest := by
  rw [bits_skip, h, List.drop_left]

theorem Proper.skip_of_eq {w rest : List Bool} (hc : c.Proper) (h : c.bits = w ++ rest) :
    (c.skip w.length).Proper := by
  apply hc.skip
  rw [h, List.length_append]
  exact Nat.le_add_right _ _

end Cursor

/-! ## Readers -/

namespace BitReader

/-- A reader takes the words that `P` gives a value, and nothing else. -/
def Reads {α : Type} (r : BitReader α) (P : List Bool → α → Prop) : Prop :=
  ∀ (c : Cursor), c.Proper → ∀ a c',
    r c = .ok (a, c') ↔ ∃ w rest, c.bits = w ++ rest ∧ P w a ∧ c' = c.skip w.length

/-- Bits as a number of a fixed width. -/
def IsNumber (n : Nat) (w : List Bool) (v : Nat) : Prop := w.length = n ∧ number w = v

/-- The only word of a fixed width that writes a number. -/
theorem isNumber_iff {n : Nat} {w : List Bool} {v : Nat} : IsNumber n w v ↔ v < 2 ^ n ∧ w = lowBits n v := by
  constructor
  · rintro ⟨rfl, rfl⟩
    exact ⟨number_lt w, (lowBits_number w).symm⟩
  · rintro ⟨hlt, rfl⟩
    exact ⟨length_lowBits n v, by rw [number_lowBits, Nat.mod_eq_of_lt hlt]⟩

namespace Reads

variable {α β : Type} {r : BitReader α} {f : α → BitReader β} {P P' : List Bool → α → Prop}
  {Q : α → List Bool → β → Prop}

theorem congr (h : r.Reads P) (hP : ∀ w a, P' w a ↔ P w a) : r.Reads P' := by
  intro c hc a c'
  simp only [hP]
  exact h c hc a c'

theorem pure (a : α) : (pure a : BitReader α).Reads fun w v => w = [] ∧ v = a := by
  intro c hc v c'
  constructor
  · intro h
    cases h
    exact ⟨[], c.bits, rfl, ⟨rfl, rfl⟩, (Cursor.skip_zero hc).symm⟩
  · rintro ⟨w, rest, -, ⟨rfl, rfl⟩, rfl⟩
    rw [List.length_nil, Cursor.skip_zero hc]
    rfl

theorem throw (flaw : Flaw) : (throw flaw : BitReader α).Reads fun _ _ => False := by
  intro c _ v c'
  constructor
  · intro h
    cases h
  · rintro ⟨_, _, _, hfalse, _⟩
    exact hfalse.elim

theorem bind (hr : r.Reads P) (hf : ∀ w a, P w a → (f a).Reads (Q a)) :
    (r >>= f).Reads fun w b => ∃ a w₁ w₂, w = w₁ ++ w₂ ∧ P w₁ a ∧ Q a w₂ b := by
  intro c hc b c'
  have hrun : (r >>= f) c = r c >>= fun p => f p.1 p.2 := rfl
  rw [hrun]
  constructor
  · intro h
    cases hfirst : r c with
    | error flaw =>
      rw [hfirst] at h
      cases h
    | ok p =>
      obtain ⟨a, c₁⟩ := p
      rw [hfirst] at h
      obtain ⟨w₁, rest₁, hbits, hP, rfl⟩ := (hr c hc a c₁).1 hfirst
      obtain ⟨w₂, rest₂, hbits₂, hQ, rfl⟩ := (hf w₁ a hP _ (hc.skip_of_eq hbits) b c').1 h
      rw [Cursor.bits_skip_of_eq hbits] at hbits₂
      refine ⟨w₁ ++ w₂, rest₂, ?_, ⟨a, w₁, w₂, rfl, hP, hQ⟩, ?_⟩
      · rw [hbits, hbits₂, List.append_assoc]
      · rw [Cursor.skip_skip, List.length_append]
  · rintro ⟨w, rest, hbits, ⟨a, w₁, w₂, rfl, hP, hQ⟩, rfl⟩
    rw [List.append_assoc] at hbits
    rw [(hr c hc a _).2 ⟨w₁, _, hbits, hP, rfl⟩]
    refine (hf w₁ a hP _ (hc.skip_of_eq hbits) b _).2 ⟨w₂, rest, Cursor.bits_skip_of_eq hbits, hQ, ?_⟩
    rw [Cursor.skip_skip, List.length_append]

/-- A reader that makes something of what another one reads. -/
theorem map (hr : r.Reads P) (g : α → β) :
    (do return g (← r) : BitReader β).Reads fun w b => ∃ a, P w a ∧ b = g a := by
  refine (hr.bind fun _ a _ => .pure (g a)).congr fun w b => ⟨?_, ?_⟩
  · rintro ⟨a, hP, rfl⟩
    exact ⟨a, w, [], (List.append_nil w).symm, hP, rfl, rfl⟩
  · rintro ⟨a, w₁, w₂, rfl, hP, rfl, rfl⟩
    rw [List.append_nil]
    exact ⟨a, hP, rfl⟩

/-- A reader that looks at a condition first. -/
theorem ite {r₁ r₂ : BitReader α} {P₁ P₂ : List Bool → α → Prop} {p : Prop} [Decidable p] (h₁ : p → r₁.Reads P₁)
    (h₂ : ¬ p → r₂.Reads P₂) : (if p then r₁ else r₂).Reads fun w a => if p then P₁ w a else P₂ w a := by
  by_cases hp : p
  · simp only [if_pos hp]
    exact h₁ hp
  · simp only [if_neg hp]
    exact h₂ hp

end Reads

/-- Within a byte there is a next bit. -/
theorem bit_eq (x : UInt8) (rest : Bytes) {taken : Nat} (h : taken < 8) :
    bit ⟨x :: rest, taken⟩ = .ok ((x.toNat >>> taken % 2 == 1).toNat, Cursor.skip 1 ⟨x :: rest, taken⟩) := by
  have hvalue : x.toNat >>> taken % 2 = (x.toNat >>> taken % 2 == 1).toNat := by
    rcases Nat.mod_two_eq_zero_or_one (x.toNat >>> taken) with h | h <;> rw [h] <;> rfl
  have hnext : (if taken = 7 then ⟨rest, 0⟩ else ⟨x :: rest, taken + 1⟩ : Cursor) =
      Cursor.skip 1 ⟨x :: rest, taken⟩ := by
    split
    · next h =>
      subst h
      simp [Cursor.skip]
    · show _ = (⟨(x :: rest).drop ((taken + 1) / 8), (taken + 1) % 8⟩ : Cursor)
      rw [Nat.div_eq_of_lt (by omega), Nat.mod_eq_of_lt (by omega), List.drop_zero]
  rw [← hvalue, ← hnext]
  rfl

theorem reads_bit : bit.Reads fun w v => ∃ b : Bool, w = [b] ∧ v = b.toNat := by
  intro c hc v c'
  obtain ⟨bytes, taken⟩ := c
  have htaken : taken < 8 := hc.taken_lt
  cases bytes with
  | nil =>
    constructor
    · intro h
      cases h
    · rintro ⟨w, rest, hbits, ⟨b, rfl, -⟩, -⟩
      rw [Cursor.bits, bitsOf_nil, List.drop_nil] at hbits
      cases hbits
  | cons x bytes =>
    rw [bit_eq x bytes htaken]
    have hbits := Cursor.bits_cons x bytes htaken
    generalize (x.toNat >>> taken % 2 == 1) = b at hbits
    constructor
    · intro h
      cases h
      exact ⟨[b], _, hbits, ⟨b, rfl, rfl⟩, rfl⟩
    · rintro ⟨w, rest, hbits', ⟨b', rfl, rfl⟩, rfl⟩
      rw [hbits] at hbits'
      obtain ⟨rfl, -⟩ := List.cons.inj hbits'
      rfl

/-- A reader that goes on by the next bit. -/
theorem Reads.bit_bind {α : Type} {f : Nat → BitReader α} {Q : Bool → List Bool → α → Prop}
    (hf : ∀ b : Bool, (f b.toNat).Reads (Q b)) :
    (bit >>= f).Reads fun w a => ∃ b w', w = b :: w' ∧ Q b w' a := by
  have hnext : ∀ w v, (∃ b : Bool, w = [b] ∧ v = b.toNat) → (f v).Reads (Q (v == 1)) := by
    rintro w v ⟨b, rfl, rfl⟩
    cases b <;> exact hf _
  refine (reads_bit.bind hnext).congr fun w a => ⟨?_, ?_⟩
  · rintro ⟨b, w', rfl, hQ⟩
    exact ⟨b.toNat, [b], w', rfl, ⟨b, rfl, rfl⟩, by cases b <;> exact hQ⟩
  · rintro ⟨_, _, w', rfl, ⟨b, rfl, rfl⟩, hQ⟩
    exact ⟨b, w', rfl, by cases b <;> exact hQ⟩

theorem reads_bits : ∀ n, (bits n).Reads (IsNumber n)
  | 0 => by
    refine (Reads.pure 0).congr fun w v => ?_
    rw [IsNumber, List.length_eq_zero_iff]
    constructor
    · rintro ⟨rfl, rfl⟩
      exact ⟨rfl, rfl⟩
    · rintro ⟨rfl, rfl⟩
      exact ⟨rfl, rfl⟩
  | n + 1 => by
    refine (Reads.bit_bind fun low => (reads_bits n).map fun high => low.toNat + 2 * high).congr fun w v => ?_
    constructor
    · rintro ⟨hlength, rfl⟩
      obtain ⟨b, w, rfl⟩ := List.exists_cons_of_length_eq_add_one hlength
      exact ⟨b, w, rfl, number w, ⟨Nat.succ.inj hlength, rfl⟩, rfl⟩
    · rintro ⟨b, w, rfl, _, ⟨rfl, rfl⟩, rfl⟩
      exact ⟨rfl, rfl⟩

end BitReader

end Hypertext.Gzip
