/-
Content codings: whether a peer accepts gzip, and whether a body is coded with it.
-/
import Hypertext.Message.Headers

namespace Hypertext.Coding

/-! ## Weights -/

/-- A decimal number without its sign: its digits, and the power of ten they are multiplied with. -/
structure Magnitude where
  digits : Nat
  exponent : Int

/-- An exponent after its letter: an optional sign and digits. -/
def readExponent? (cs : List Char) : Option Int :=
  let (negative, digits) := match cs with
    | '-' :: rest => (true, rest)
    | '+' :: rest => (false, rest)
    | _ => (false, cs)
  if digits.isEmpty || !digits.all Text.isDigit then none
  else
    let n : Int := Text.digitsValue digits
    some (if negative then -n else n)

/-- Digits with an optional point among them and an optional exponent. -/
def readMagnitude? (cs : List Char) : Option Magnitude :=
  let whole := cs.takeWhile Text.isDigit
  let rest := cs.drop whole.length
  let (places, rest) := match rest with
    | '.' :: after => (after.takeWhile Text.isDigit, after.dropWhile Text.isDigit)
    | _ => ([], rest)
  let value := Text.digitsValue (whole ++ places)
  if whole.isEmpty && places.isEmpty then none
  else match rest with
    | [] => some ⟨value, -places.length⟩
    | c :: after =>
      if c == 'e' || c == 'E' then (readExponent? after).map fun e => ⟨value, e - places.length⟩ else none

/-- Whether the number is positive in single precision: more than half of the least positive value. -/
def Magnitude.isPositive (m : Magnitude) : Bool :=
  let size := ((Nat.toDigits 10 m.digits).length : Int) + m.exponent
  if m.digits = 0 || size < -60 then false
  else if 0 < size then true
  else Nat.pow 10 (-m.exponent).toNat < m.digits <<< 150

/-- Whether a weight is positive; none if the text is no number. -/
def positiveWeight? (s : String) : Option Bool :=
  let (negative, cs) := match s.toList with
    | '-' :: rest => (true, rest)
    | '+' :: rest => (false, rest)
    | cs => (false, cs)
  let word := String.ofList (cs.map Char.toLower)
  let positive :=
    if word == "inf" || word == "infinity" then some true
    else if word == "nan" then some false
    else (readMagnitude? cs).map (·.isPositive)
  positive.map (· && !negative)

/-! ## Negotiation -/

/-- A coding that a peer lists, and whether it is wanted at all: a weight that is no number counts as full. -/
def listed (element : String) : String × Bool :=
  let parts := (Text.split ';' element).map Text.trim
  let weight := (parts.drop 1).findSome? fun p => (Text.dropPrefix? "q=" p).or (Text.dropPrefix? "Q=" p)
  (parts.headD "", ((weight.bind positiveWeight?).getD true))

/-- The names of the gzip coding. -/
def isGzip (coding : String) : Bool := Text.sameName coding "gzip" || Text.sameName coding "x-gzip"

/-- Whether some listed coding that is wanted is gzip or stands for all codings. -/
def acceptsGzip (h : Headers) : Bool :=
  ((h.getAll "accept-encoding").flatMap (Text.split ',')).any fun element =>
    (listed element).2 && (isGzip (listed element).1 || (listed element).1 == "*")

/-- Whether gzip is among the codings of a body. -/
def isGzipEncoded (h : Headers) : Bool :=
  h.hasToken "content-encoding" "gzip" || h.hasToken "content-encoding" "x-gzip"

end Hypertext.Coding
