import ParametricLP.Decimal.Basic

/-! # The shortest decimal that reads back

Reading a decimal gives the nearest double, so the decimals that read back as one double fill an
interval around it. For one digit, two digits and so on the two neighbours of the double on that
decimal grid are tested against the interval in whole numbers; the first grid with a hit wins, and
of two hits the nearer one, an exact tie going to the even digit. -/

namespace ParametricLP.Decimal

/-- Largest number of digits that a double needs. -/
def mostDigits : Nat := 17

/-- The decimal of `p` digits nearest to `m * 2 ^ e` that reads back as it, if one does. In quarters
    of the last binary place the interval that reads back reaches two up, and two down, or one down
    at the foot of a binade; its ends belong to it when `m` is even. -/
def readsBack? (m : Nat) (e : Int) (p : Nat) : Option Decimal :=
  let k := (Ratio.ofBinary m e).magnitude - p + 1
  let onGrid (quarters : Nat) : Ratio := (Ratio.ofBinary quarters (e - 2)).shiftDown k
  let low :=
    onGrid (if m = Double.leastNormal ∧ Double.leastExponent < e then 4 * m - 1 else 4 * m - 2)
  let high := onGrid (4 * m + 2)
  let middle := onGrid (4 * m)
  let inside (q : Nat) : Bool :=
    if m % 2 = 0 then decide (low.num ≤ q * low.den) && decide (q * high.den ≤ high.num)
    else decide (low.num < q * low.den) && decide (q * high.den < high.num)
  -- The two neighbours on the grid are `q` and `q + 1`.
  let q := middle.floor
  if inside q && inside (q + 1) then some ⟨middle.nearest, k⟩
  else if inside q then some ⟨q, k⟩
  else if inside (q + 1) then some ⟨q + 1, k⟩
  else none

/-- The shortest decimal that reads back as `m * 2 ^ e`, for positive `m`. -/
def shortest (m : Nat) (e : Int) : Decimal :=
  let hit := (List.range mostDigits).findSome? fun p => readsBack? m e (p + 1)
  (hit.getD (rounded mostDigits (Ratio.ofBinary m e))).normal

end ParametricLP.Decimal
