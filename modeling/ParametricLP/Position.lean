/-! # Positions in a sequence

Positions may be given from either end: `-1` is the last one. `resolve?` turns such a number
into an index, `Slice.indices?` a range with a step into the indices that it selects.
`stretchWith?` combines two sequences entry by entry, a sequence of one entry being repeated to the
length of the other. -/

namespace ParametricLP

/-- The index that position `i` means in a sequence of length `n`, if it is in range. -/
def resolve? (n : Nat) (i : Int) : Option (Fin n) :=
  let k := if i < 0 then i + n else i
  if h : 0 ≤ k ∧ k < n then some ⟨k.toNat, by omega⟩ else none

/-- Whether a whole number is small enough to be stored as a position: positions are kept in 64
    bits, one of which is the sign. -/
def fitsPosition (i : Int) : Bool :=
  decide (-0x8000000000000000 ≤ i ∧ i < 0x8000000000000000)

/-- A position counted from the front. -/
theorem resolve?_natCast {n i : Nat} (h : i < n) : resolve? n (i : Int) = some ⟨i, h⟩ := by
  have : ¬ (i : Int) < 0 := by omega
  simp [resolve?, this, h]

/-- Positions out of range are those more than the length from the end, or past it. -/
theorem resolve?_eq_none_iff {n : Nat} {i : Int} :
    resolve? n i = none ↔ i < -n ∨ (n : Int) ≤ i := by
  simp only [resolve?]
  split <;> split <;> simp <;> omega

/-- A range of positions with a step; what is left out is as far as the sequence goes. -/
structure Slice where
  start : Option Int := none
  stop : Option Int := none
  step : Option Int := none

namespace Slice

/-- A bound of a range, moved to between `low` and `high` after counting from the end. -/
def clamp (n : Nat) (low high : Int) (i : Int) : Int :=
  let k := if i < 0 then i + n else i
  if k < low then low else if high < k then high else k

/-- The indices selected in a sequence of length `n`, in order; a step of zero selects nothing
    meaningful and is refused. -/
def indices? (s : Slice) (n : Nat) : Option (List (Fin n)) :=
  let step := s.step.getD 1
  if step = 0 then
    none
  else
    -- A range that runs backwards may stop before the first entry, at `-1`.
    let (low, high) := if 0 < step then ((0 : Int), (n : Int)) else (-1, (n : Int) - 1)
    let first := (s.start.map (clamp n low high)).getD (if 0 < step then low else high)
    let stop := (s.stop.map (clamp n low high)).getD (if 0 < step then high else low)
    -- Whole steps that fit between the bounds, a last partial one counted too.
    let count :=
      if 0 < step then ((stop - first + step - 1) / step).toNat
      else ((first - stop - step - 1) / (-step)).toNat
    some ((List.range count).filterMap fun (k : Nat) =>
      let i := first + step * (k : Int)
      if h : 0 ≤ i ∧ i < n then some ⟨i.toNat, by omega⟩ else none)

/-- The positions from `start` up to but not including `stop`. -/
def between (start stop : Int) : Slice :=
  { start := some start, stop := some stop }

/-- The entries that a slice selects. -/
def select? {β : Type} (s : Slice) (xs : List β) : Option (List β) :=
  (s.indices? xs.length).map fun is => is.map xs.get

end Slice

/-- Entries combined pairwise; a sequence of one entry is repeated to the length of the other. -/
def stretchWith? {β γ δ : Type} (f : β → γ → δ) (xs : List β) (ys : List γ) : Option (List δ) :=
  if xs.length = ys.length then
    some (xs.zipWith f ys)
  else
    match xs, ys with
    | [x], ys => some (ys.map (f x))
    | xs, [y] => some (xs.map (f · y))
    | _, _ => none

theorem stretchWith?_of_length_eq {β γ δ : Type} {f : β → γ → δ} {xs : List β} {ys : List γ}
    (h : xs.length = ys.length) : stretchWith? f xs ys = some (xs.zipWith f ys) := by
  simp [stretchWith?, h]

/-- A sequence repeated to length `n` if it has one entry, and unchanged if it has `n`. -/
def stretchTo? {β : Type} (n : Nat) (xs : List β) : Option (List β) :=
  if xs.length = n then
    some xs
  else
    match xs with
    | [x] => some (List.replicate n x)
    | _ => none

theorem length_of_stretchTo? {β : Type} {n : Nat} {xs ys : List β}
    (h : stretchTo? n xs = some ys) : ys.length = n := by
  simp only [stretchTo?] at h
  split at h
  · simp_all
  · split at h
    · simp only [Option.some.injEq] at h
      subst h; simp
    · exact nomatch h

end ParametricLP
