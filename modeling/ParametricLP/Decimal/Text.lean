import ParametricLP.Decimal.Shortest

/-! # How numbers are written

A `Layout` decides between positional and scientific notation. `exactText` writes the shortest
decimal that reads back; `significantText p` rounds to `p` digits and drops trailing zeros. -/

namespace ParametricLP

/-- Decisions of a number format. -/
structure Layout where
  /-- Smallest decimal exponent that is written positionally. -/
  lowest : Int
  /-- Smallest decimal exponent above those that are written positionally. -/
  limit : Int
  /-- Whether a whole number written positionally ends in `.0`. -/
  pointZero : Bool

namespace Layout

/-- Numbers that read back are positional from `0.0001` to below `10 ^ 16`, always with a point. -/
def exact : Layout := ⟨-4, 16, true⟩

/-- Numbers of `p` digits are positional from `0.0001` to below `10 ^ p`. -/
def significant (p : Nat) : Layout := ⟨-4, p, false⟩

/-- An exponent with its sign and at least two digits. -/
def exponentText (k : Int) : String :=
  let sign := if k < 0 then "-" else "+"
  let digits := toString k.natAbs
  sign ++ (if k.natAbs < 10 then "0" ++ digits else digits)

/-- Digits with the point after the first `places` of them, which are filled up with zeros. -/
def positional (l : Layout) (digits : List Char) (places : Int) : String :=
  if places ≤ 0 then
    "0." ++ String.ofList (List.replicate (-places).toNat '0' ++ digits)
  else
    let whole := digits.take places.toNat
    let whole := whole ++ List.replicate (places.toNat - whole.length) '0'
    let fraction := digits.drop places.toNat
    let tail := if fraction.isEmpty then (if l.pointZero then ".0" else "")
      else "." ++ String.ofList fraction
    String.ofList whole ++ tail

/-- Digits with the point after the first of them, and an exponent. -/
def scientific (digits : List Char) (k : Int) : String :=
  let fraction := digits.drop 1
  let tail := if fraction.isEmpty then "" else "." ++ String.ofList fraction
  String.ofList (digits.take 1) ++ tail ++ "e" ++ exponentText k

/-- A positive decimal without trailing zeros. -/
def write (l : Layout) (d : Decimal) : String :=
  let digits := Nat.toDigits 10 d.digits
  let k := (digits.length : Int) - 1 + d.exponent
  if l.lowest ≤ k ∧ k < l.limit then l.positional digits (k + 1) else scientific digits k

/-- Zero without its sign. -/
def zero (l : Layout) : String :=
  if l.pointZero then "0.0" else "0"

/-- A double, the digits of its absolute value given by `decimal`. -/
def text (l : Layout) (decimal : Nat → Int → Decimal) (x : Float) : String :=
  let sign (negative : Bool) := if negative then "-" else ""
  match Double.ofFloat x with
  | .undefined => "nan"
  | .infinite negative => sign negative ++ "inf"
  | .finite negative m e => sign negative ++ (if m = 0 then l.zero else l.write (decimal m e))

end Layout

/-- The shortest decimal that reads back. -/
def exactText : Float → String :=
  Layout.exact.text Decimal.shortest

/-- The number rounded to `p` significant digits, trailing zeros dropped. -/
def significantText (p : Nat) : Float → String :=
  (Layout.significant p).text fun m e => Decimal.rounded p (Ratio.ofBinary m e)

end ParametricLP
