/-
The shortest decimal that reads back as a given double. A finite double is `m · 2^q`; the reals that round to
it form an interval whose ends belong to it exactly when `m` is even. Among the decimals of that interval the
ones with the fewest digits are wanted, and of those the nearest.
-/

namespace Hypertext.Decimal

/-- A positive decimal `digits · 10^exponent`. -/
structure Scaled where
  digits : Nat
  exponent : Int
  deriving DecidableEq, Repr

/-- A finite double without its sign, `mantissa · 2^exponent`, and whether the gap below it is only half as
wide as the gap above, as it is at a power of two. -/
structure Binary where
  mantissa : Nat
  exponent : Int
  narrow : Bool
  deriving DecidableEq, Repr

def Binary.ofBits (bits : UInt64) : Binary :=
  let frac : Nat := bits.toNat % (1 <<< 52)
  let expo : Nat := bits.toNat >>> 52 % (1 <<< 11)
  if expo == 0 then ⟨frac, -1074, false⟩ else ⟨frac + 1 <<< 52, (expo : Int) - 1075, frac == 0 && expo != 1⟩

/-- A quotient of two natural numbers, the denominator positive. -/
structure Ratio where
  num : Nat
  den : Nat
  deriving DecidableEq, Repr

/-- `n · 2^e`. -/
def Ratio.scale2 (n : Nat) (e : Int) : Ratio :=
  if 0 ≤ e then ⟨n <<< e.toNat, 1⟩ else ⟨n, 1 <<< (-e).toNat⟩

/-- The ratio over `10^p`. -/
def Ratio.over10 (r : Ratio) (p : Int) : Ratio :=
  if 0 ≤ p then ⟨r.num, r.den * Nat.pow 10 p.toNat⟩ else ⟨r.num * Nat.pow 10 (-p).toNat, r.den⟩

/-- The value and the ends of the interval that rounds to it. -/
def Binary.interval (x : Binary) : Ratio × Ratio × Ratio :=
  let m := 4 * x.mantissa
  (.scale2 m (x.exponent - 2), .scale2 (m - if x.narrow then 1 else 2) (x.exponent - 2),
    .scale2 (m + 2) (x.exponent - 2))

/-- Whether `c` times the unit lies between the two ends, which count if `closed`. -/
def within (c : Nat) (lo hi : Ratio) (closed : Bool) : Bool :=
  if closed then lo.num ≤ c * lo.den && c * hi.den ≤ hi.num
  else lo.num < c * lo.den && c * hi.den < hi.num

/-- The multiple of `10^p` that lies in the interval of `x`, the nearer of the two neighbours of `x` if both do
and the even one if they are equally near. -/
def onGrid (x : Binary) (p : Int) : Option Nat :=
  let (v, lo, hi) := x.interval
  let (v, lo, hi) := (v.over10 p, lo.over10 p, hi.over10 p)
  let c := v.num / v.den
  let closed := x.mantissa % 2 == 0
  match 0 < c && within c lo hi closed, within (c + 1) lo hi closed with
  | true, true =>
    let below := 2 * (v.num - c * v.den)
    some (if below < v.den || (below == v.den && c % 2 == 0) then c else c + 1)
  | true, false => some c
  | false, true => some (c + 1)
  | false, false => none

/-- The first grid with a hit, going down from `10^p` through `n` powers of ten. -/
def search (x : Binary) : (n : Nat) → (p : Int) → Scaled
  | 0, p => ⟨0, p⟩
  | n + 1, p =>
    match onGrid x p with
    | some c => ⟨c, p⟩
    | none => search x n (p - 1)

/-- The shortest decimal of a positive finite double: seventeen digits always suffice, so the search starts at
most two powers above the value. -/
def shortest (x : Binary) : Scaled :=
  let bits : Int := x.exponent + (Nat.log2 x.mantissa + 1 : Nat)
  search x 24 (bits * 30103 / 100000 + 1)

/-- How numbers are laid out: the range of decimal point places that are written without an exponent, whether a
whole number keeps a place after the point, and the sign of a positive exponent. -/
structure Layout where
  lowest : Int
  highest : Int
  wholePlace : Bool
  exponentSign : String

/-- The digits with the point after `point` of them. -/
def positional (ds : List Char) (point : Int) (wholePlace : Bool) : String :=
  let n : Int := ds.length
  if n ≤ point then
    String.ofList (ds ++ List.replicate (point - n).toNat '0') ++ if wholePlace then ".0" else ""
  else if 0 < point then
    String.ofList (ds.take point.toNat) ++ "." ++ String.ofList (ds.drop point.toNat)
  else "0." ++ String.ofList (List.replicate (-point).toNat '0' ++ ds)

/-- One digit, a point before the others if there are any, and the exponent. -/
def scientific (ds : List Char) (point : Int) (sign : String) : String :=
  let e := point - 1
  let head := String.ofList (ds.take 1)
  let tail := if ds.length ≤ 1 then "" else "." ++ String.ofList (ds.drop 1)
  s!"{head}{tail}e" ++ (if 0 ≤ e then sign else "") ++ toString e

/-- The text of a finite double under a layout. -/
def Layout.text (l : Layout) (x : Float) : String :=
  let b := Binary.ofBits x.toBits
  let sign := if 1 <<< 63 ≤ x.toBits.toNat then "-" else ""
  if b.mantissa == 0 then sign ++ if l.wholePlace then "0.0" else "0"
  else
    let d := shortest b
    let ds := Nat.toDigits 10 d.digits
    let point := d.exponent + ds.length
    sign ++ if l.lowest ≤ point && point ≤ l.highest then positional ds point l.wholePlace
      else scientific ds point l.exponentSign

end Hypertext.Decimal
