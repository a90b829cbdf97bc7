import Mathlib
import ParametricLP.Affine.Block
import ParametricLP.Proofs.Affine

/-!
# Signs of blocks of affine functions

A block of affine functions is nonnegative where all of its entries are. Its crossings say how far
down it stays so from any point where it is nonnegative, and its entries accepted as nonnegative for
large `lam` say whether there is such a point arbitrarily far up. A function read off the block at a
position is judged as its entry there.

## Key results

- `accepted_iff_exists`: all entries are accepted where the block is nonnegative for all large `lam`
- `NonnegAt.iff_of_le`: nonnegative at `top` is nonnegative just down to the crossings
- `nonnegAbove_iff_of_accepted`: accepted is nonnegative from the crossings on
- `nonnegAtInfinity_slice`: entries and the functions at their positions are judged alike
- `crossings_bound_signs`: signs from infinity, from any point below it, and of each function
-/

namespace ParametricLP

namespace AffineBlock

variable {v : AffineBlock ℚ} {lam top : ℚ}

/-- Whether all entries are nonnegative at `lam`. -/
def NonnegAt (v : AffineBlock ℚ) (lam : ℚ) : Prop :=
  ∀ x ∈ (v.value lam).entries, 0 ≤ x

/-! ## Entries -/

/-- A block is nonnegative where all of its functions are. -/
theorem nonnegAt_iff : v.NonnegAt lam ↔ ∀ e ∈ v.entries, 0 ≤ e.value lam := by
  unfold NonnegAt value
  rw [Block.entries_map, List.forall_mem_map]

/-- What is accepted entry by entry is accepted function by function. -/
theorem accepted_iff : (∀ b ∈ (v.nonnegAtInfinity 0 0).entries, b = true) ↔
    ∀ e ∈ v.entries, e.nonnegAtInfinity 0 0 = true := by
  unfold nonnegAtInfinity
  rw [Block.entries_map, List.forall_mem_map]

/-- The crossings of a block are those of its functions. -/
theorem crossings_le_iff : (∀ c, some c ∈ (v.zeroCrossings 0).entries → c ≤ lam) ↔
    ∀ e ∈ v.entries, ∀ c, e.fallsToZero? 0 = some c → c ≤ lam := by
  unfold zeroCrossings
  rw [Block.entries_map]
  simp only [List.mem_map]
  exact ⟨fun h e he c hc => h c ⟨e, he, hc⟩, fun h c ⟨e, he, hc⟩ => h e he c hc⟩

/-! ## Where a block is nonnegative -/

/-- All entries are accepted without tolerance exactly where the block is nonnegative for all large
    `lam`. -/
theorem accepted_iff_exists : (∀ b ∈ (v.nonnegAtInfinity 0 0).entries, b = true) ↔
    ∃ low, ∀ lam, low ≤ lam → v.NonnegAt lam := by
  -- Finitely many functions are nonnegative together from some point on.
  have hall : (∀ᶠ lam in Filter.atTop, ∀ e ∈ v.entries, 0 ≤ e.value lam) ↔
      ∀ e ∈ v.entries, ∀ᶠ lam in Filter.atTop, 0 ≤ e.value lam :=
    Filter.eventually_all_finite v.entries.finite_toSet
  simp only [accepted_iff, nonnegAt_iff, Affine.nonnegAtInfinity_zero_iff_exists,
    ← Filter.eventually_atTop, hall]

/-- Below a point where it is nonnegative, a block is nonnegative just down to its crossings. -/
theorem NonnegAt.iff_of_le (htop : v.NonnegAt top) (hle : lam ≤ top) :
    v.NonnegAt lam ↔ ∀ c, some c ∈ (v.zeroCrossings 0).entries → c ≤ lam := by
  rw [nonnegAt_iff] at htop
  rw [nonnegAt_iff, crossings_le_iff]
  exact forall₂_congr fun e he => Affine.value_nonneg_iff_of_le (htop e he) hle

/-- A block that is accepted is nonnegative just down to its crossings. -/
theorem nonnegAt_iff_of_accepted
    (haccepted : ∀ b ∈ (v.nonnegAtInfinity 0 0).entries, b = true) :
    v.NonnegAt lam ↔ ∀ c, some c ∈ (v.zeroCrossings 0).entries → c ≤ lam := by
  rw [accepted_iff] at haccepted
  rw [nonnegAt_iff, crossings_le_iff]
  -- Each function is compared with its own crossing.
  exact forall₂_congr fun e he => Affine.value_nonneg_iff_of_nonnegAtInfinity (haccepted e he)

/-- So it is nonnegative from its crossings on. -/
theorem nonnegAbove_iff_of_accepted
    (haccepted : ∀ b ∈ (v.nonnegAtInfinity 0 0).entries, b = true) :
    (∀ mu, lam ≤ mu → v.NonnegAt mu) ↔
      ∀ c, some c ∈ (v.zeroCrossings 0).entries → c ≤ lam := by
  constructor
  · intro h
    exact (nonnegAt_iff_of_accepted haccepted).1 (h lam le_rfl)
  · -- Above `lam` all crossings are left behind all the more.
    intro hcross mu hle
    exact (nonnegAt_iff_of_accepted haccepted).2 fun c hc => (hcross c hc).trans hle

/-! ## Single functions -/

/-- The function at a position is the slice there, if that slice is a single function. -/
theorem get_eq_ok_iff {i : ℤ} {e : Affine ℚ} : v.get i = .ok e ↔ v.slice i = .ok (.single e) := by
  unfold get
  cases v.slice i with
  | error cause => simp [bind, Except.bind]
  | ok b => simp [bind, Except.bind, Block.number_eq_ok_iff]

/-- The function at a position is accepted just as the entry there. -/
theorem nonnegAtInfinity_slice {i : ℤ} {e : Affine ℚ} (h : v.get i = .ok e) (tol slopeTol : ℚ) :
    (v.nonnegAtInfinity tol slopeTol).slice i =
      .ok (.single (e.nonnegAtInfinity tol slopeTol)) := by
  rw [nonnegAtInfinity, Block.slice_map, get_eq_ok_iff.1 h]
  rfl

/-- The entries of a block are accepted exactly where it is nonnegative for all large `lam`, and
    then it is nonnegative from its crossings on. From any point where it is nonnegative it stays so
    just down to its crossings. At every position of a block of one extent there is a function; it
    is accepted as the entry there, and accepted from `lam` on where it is nonnegative from `lam`
    on. -/
theorem crossings_bound_signs (v : AffineBlock ℚ) :
    ((∀ b ∈ (v.nonnegAtInfinity 0 0).entries, b = true) ↔
      ∃ low, ∀ lam, low ≤ lam → v.NonnegAt lam) ∧
    ((∀ b ∈ (v.nonnegAtInfinity 0 0).entries, b = true) → ∀ lam,
      (∀ mu, lam ≤ mu → v.NonnegAt mu) ↔
        ∀ c, some c ∈ (v.zeroCrossings 0).entries → c ≤ lam) ∧
    (∀ mu lam, v.NonnegAt mu → lam ≤ mu →
      (v.NonnegAt lam ↔ ∀ c, some c ∈ (v.zeroCrossings 0).entries → c ≤ lam)) ∧
    ∀ (n : ℕ) (i : ℤ), v.shape = [n] → -n ≤ i → i < n → ∃ e, v.get i = .ok e ∧
      (∀ tol, (v.nonnegAtInfinity tol tol).slice i =
        .ok (.single (e.nonnegAtInfinity tol tol))) ∧
      ∀ lam, e.nonnegAbove lam 0 = true ↔ ∀ mu, lam ≤ mu → 0 ≤ e.value mu := by
  refine ⟨accepted_iff_exists, fun h lam => nonnegAbove_iff_of_accepted h,
    fun mu lam h => h.iff_of_le, ?_⟩
  intro n i hshape hlow hhigh
  -- The position is in range, so a slice is there, and it is a single function.
  obtain ⟨e, he⟩ := Block.exists_slice_eq_single hshape hlow hhigh
  have hget : v.get i = .ok e := get_eq_ok_iff.2 he
  exact ⟨e, hget, fun tol => nonnegAtInfinity_slice hget tol tol,
    fun lam => Affine.nonnegAbove_zero_iff⟩

end AffineBlock

end ParametricLP
