/-! # Exact decimals of doubles

A finite double is a whole number times a power of two, so its decimal expansion is finite and can
be computed exactly. `Double.ofFloat` takes a double apart; the scaling functions below compare it
with powers of ten in whole numbers. -/

namespace ParametricLP

/-- A double taken apart: a finite one is `± mantissa * 2 ^ exponent`. -/
inductive Double where
  | undefined
  | infinite (negative : Bool)
  | finite (negative : Bool) (mantissa : Nat) (exponent : Int)
  deriving DecidableEq, Repr

namespace Double

/-- Mantissa of the smallest normal number of each binade. -/
def leastNormal : Nat := Nat.pow 2 52

/-- Exponent of the subnormal numbers and of the lowest binade. -/
def leastExponent : Int := -1074

/-- A double taken apart by its bits. -/
def ofFloat (x : Float) : Double :=
  let bits := x.toBits.toNat
  let negative := bits / Nat.pow 2 63 == 1
  let biased : Nat := bits / Nat.pow 2 52 % Nat.pow 2 11
  let fraction : Nat := bits % Nat.pow 2 52
  if biased = 2047 then
    if fraction = 0 then .infinite negative else .undefined
  else if biased = 0 then
    .finite negative fraction leastExponent
  else
    .finite negative (fraction + leastNormal) ((biased : Int) + leastExponent - 1)

end Double

/-- The number `digits * 10 ^ exponent`. -/
structure Decimal where
  digits : Nat
  exponent : Int
  deriving DecidableEq, Repr

/-- A nonnegative fraction. -/
structure Ratio where
  num : Nat
  den : Nat

namespace Ratio

/-- The fraction `m * 2 ^ e`. -/
def ofBinary (m : Nat) (e : Int) : Ratio :=
  if 0 ≤ e then ⟨m * Nat.pow 2 e.toNat, 1⟩
  else ⟨m, Nat.pow 2 (-e).toNat⟩

/-- The fraction divided by `10 ^ k`. -/
def shiftDown (r : Ratio) (k : Int) : Ratio :=
  if 0 ≤ k then ⟨r.num, r.den * Nat.pow 10 k.toNat⟩
  else ⟨r.num * Nat.pow 10 (-k).toNat, r.den⟩

/-- Whole part. -/
def floor (r : Ratio) : Nat :=
  r.num / r.den

/-- Nearest whole number, a half going to the even neighbour. -/
def nearest (r : Ratio) : Nat :=
  let q := r.num / r.den
  let twice := 2 * (r.num % r.den)
  if twice < r.den then q
  else if r.den < twice then q + 1
  else if q % 2 = 0 then q else q + 1

/-- The nearest whole number is at most half a unit away. -/
theorem nearest_within_half (r : Ratio) (h : 0 < r.den) :
    2 * r.num ≤ (2 * r.nearest + 1) * r.den ∧ 2 * r.nearest * r.den ≤ 2 * r.num + r.den := by
  have hdiv := Nat.div_add_mod r.num r.den
  have hmod := Nat.mod_lt r.num h
  simp only [nearest]
  -- Only the division identity and the bound on the remainder are needed from here on.
  generalize r.num / r.den = q at hdiv ⊢
  generalize r.num % r.den = k at hdiv hmod ⊢
  rw [← hdiv]
  have hcomm : r.den * q = q * r.den := Nat.mul_comm _ _
  split
  · constructor <;> simp only [Nat.add_mul, Nat.mul_assoc] <;> omega
  · split
    · constructor <;> simp only [Nat.add_mul, Nat.mul_add, Nat.mul_assoc] <;> omega
    · split <;> constructor <;> simp only [Nat.add_mul, Nat.mul_add, Nat.mul_assoc] <;> omega

/-- Number of decimal digits of a whole number. -/
def digitCount (n : Nat) : Nat :=
  (Nat.toDigits 10 n).length

/-- The `k` with `10 ^ k ≤ r < 10 ^ (k + 1)`, for a positive fraction. -/
def magnitude (r : Ratio) : Int :=
  -- The quotient of an `a`-digit number and a `b`-digit one has magnitude `a - b` or one less.
  let guess : Int := (digitCount r.num : Int) - digitCount r.den
  if 0 < (r.shiftDown guess).floor then guess else guess - 1

end Ratio

namespace Double

/-- The whole part of `± m * 2 ^ e`, cut off towards zero. -/
def wholePart (negative : Bool) (m : Nat) (e : Int) : Int :=
  let size := (Ratio.ofBinary m e).floor
  if negative then -(size : Int) else size

/-- Number of binary digits that a double keeps. -/
def precision : Nat := 53

/-- The whole number nearest to a given one among those that a double holds. -/
def nearestWhole (j : Int) : Int :=
  let excess := (Nat.log2 j.natAbs + 1) - precision
  let size := (Ratio.mk j.natAbs (Nat.pow 2 excess)).nearest * Nat.pow 2 excess
  if j < 0 then -(size : Int) else size

/-- Whole numbers of at most 53 binary digits are kept as they are. -/
theorem nearestWhole_of_natAbs_lt {j : Int} (h : j.natAbs < Nat.pow 2 precision) :
    nearestWhole j = j := by
  have hlog : Nat.log2 j.natAbs + 1 - precision = 0 := by
    rcases Nat.eq_zero_or_pos j.natAbs with h0 | h0
    · simp [h0, precision]
    · have := (Nat.log2_lt (by omega)).2 h
      omega
  simp only [nearestWhole, hlog, Nat.pow_eq, Nat.pow_zero, Ratio.nearest, Nat.div_one, Nat.mod_one]
  simp only [Nat.mul_zero, Nat.lt_add_one, ↓reduceIte, Nat.mul_one]
  split <;> omega

end Double

namespace Decimal

/-- Removes up to `fuel` trailing zeros. -/
def strip : (fuel : Nat) → Decimal → Decimal
  | 0, d => d
  | fuel + 1, d =>
    if d.digits % 10 = 0 ∧ d.digits ≠ 0 then strip fuel ⟨d.digits / 10, d.exponent + 1⟩ else d

/-- The same number without trailing zeros. -/
def normal (d : Decimal) : Decimal :=
  d.strip (Ratio.digitCount d.digits)

/-- A positive fraction rounded to `p` digits. -/
def rounded (p : Nat) (r : Ratio) : Decimal :=
  let k := r.magnitude - p + 1
  normal ⟨(r.shiftDown k).nearest, k⟩

end Decimal

end ParametricLP
