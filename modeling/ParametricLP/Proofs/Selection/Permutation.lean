import Mathlib
import ParametricLP.Proofs.Selection

/-!
# Selections do not see positions

What is selected depends on the numbers and keys of the candidates, not on the order in which they
are listed. Best values and scales are maxima and minima, so every stage keeps the same candidates
whatever their order; of these the smallest key picks one, if no two have the same. A selection
commutes with a renaming of the candidates as well.

## Key results

- `argmin_perm`, `argmax_perm`: the same candidates in another order
- `argmin_map`, `argmax_map`: the same candidates under other names
-/

namespace ParametricLP

/-- The chosen candidate under another name. -/
def Choice.map {ι κ : Type} (f : ι → κ) : Choice ι → Choice κ
  | .empty => .empty
  | .undetermined => .undetermined
  | .chosen i => .chosen (f i)

/-! ## Running maxima and minima -/

namespace Scalar

variable {ι : Type} {i i' : ι} {is is' : List ι}

/-- A running minimum is the same in any order. -/
theorem foldl_smaller_perm (f : ι → ℚ) (h : (i :: is).Perm (i' :: is')) :
    is.foldl (fun b j => smaller b (f j)) (f i) = is'.foldl (fun b j => smaller b (f j)) (f i') := by
  -- What is below the minimum is what is below every candidate.
  refine eq_of_forall_le_iff fun b => ?_
  have hmem (P : ι → Prop) : (∀ j ∈ i :: is, P j) ↔ ∀ j ∈ i' :: is', P j := by
    simp only [h.mem_iff]
  rw [le_foldl_smaller_iff, le_foldl_smaller_iff, ← List.forall_mem_cons (p := fun j => b ≤ f j),
    hmem, List.forall_mem_cons]

/-- A running maximum is the same in any order. -/
theorem foldl_larger_perm (f : ι → ℚ) (h : (i :: is).Perm (i' :: is')) :
    is.foldl (fun b j => larger b (f j)) (f i) = is'.foldl (fun b j => larger b (f j)) (f i') := by
  -- What is above the maximum is what is above every candidate.
  refine eq_of_forall_ge_iff fun b => ?_
  have hmem (P : ι → Prop) : (∀ j ∈ i :: is, P j) ↔ ∀ j ∈ i' :: is', P j := by
    simp only [h.mem_iff]
  rw [foldl_larger_le_iff, foldl_larger_le_iff, ← List.forall_mem_cons (p := fun j => f j ≤ b),
    hmem, List.forall_mem_cons]

end Scalar

namespace Selection

section Map

variable {α ι ι' κ : Type} [Scalar α] [LT κ] [DecidableLT κ] {tol : α} {value slope : ι' → α}
  {key : ι' → κ} {f : ι → ι'} {is : List ι}

/-! ## Other names -/

/-- The smallest key picks the same candidate under its new name. -/
theorem smallestKey_map : smallestKey key (is.map f) = (smallestKey (key ∘ f) is).map f := by
  induction is with
  | nil => rfl
  | cons i is ih =>
    rw [List.map_cons]
    unfold smallestKey
    -- The candidate in front is compared with the one picked from the others.
    rw [ih]
    cases smallestKey (key ∘ f) is with
    | none => rfl
    | some j =>
      dsimp only [Option.map_some, Function.comp_apply]
      split
      · rfl
      · rfl

/-- The stage of smallest values commutes with a renaming. -/
theorem nearSmallest_map :
    nearSmallest tol value (is.map f) = (nearSmallest tol (value ∘ f) is).map f := by
  cases is with
  | nil => rfl
  | cons i is =>
    rw [List.map_cons]
    unfold nearSmallest
    dsimp only
    rw [List.foldl_map, List.foldl_map, ← List.map_cons, List.filter_map]
    rfl

/-- The stage of largest slopes commutes with a renaming. -/
theorem nearLargest_map :
    nearLargest tol value (is.map f) = (nearLargest tol (value ∘ f) is).map f := by
  cases is with
  | nil => rfl
  | cons i is =>
    rw [List.map_cons]
    unfold nearLargest
    dsimp only
    rw [List.foldl_map, List.foldl_map, ← List.map_cons, List.filter_map]
    rfl

/-- The stage of largest values commutes with a renaming. -/
theorem nextToLargest_map :
    nextToLargest tol value (is.map f) = (nextToLargest tol (value ∘ f) is).map f := by
  cases is with
  | nil => rfl
  | cons i is =>
    rw [List.map_cons]
    unfold nextToLargest
    dsimp only
    rw [List.foldl_map, ← List.map_cons, List.filter_map]
    rfl

/-- The answer for a tie commutes with a renaming. -/
theorem ofTied_map (o : Option ι) : Choice.ofTied (o.map f) = (Choice.ofTied o).map f := by
  cases o with
  | _ => rfl

/-- The choice of a smallest value commutes with a renaming. -/
theorem argmin_map : argmin tol value slope key (is.map f) =
    (argmin tol (value ∘ f) (slope ∘ f) (key ∘ f) is).map f := by
  unfold argmin ifSeveral
  rw [List.isEmpty_map, nearSmallest_map, nearLargest_map, List.length_map]
  split
  · rfl
  · split
    · rw [smallestKey_map, ofTied_map]
    · rw [smallestKey_map, ofTied_map]

/-- The choice of a largest value commutes with a renaming. -/
theorem argmax_map :
    argmax tol value key (is.map f) = (argmax tol (value ∘ f) (key ∘ f) is).map f := by
  have hfinite : finite value (is.map f) = (finite (value ∘ f) is).map f := List.filter_map
  unfold argmax
  dsimp only
  rw [hfinite, List.isEmpty_map, nextToLargest_map]
  split
  · rfl
  · rw [smallestKey_map, ofTied_map]

end Map

/-! ## Another order -/

variable {ι κ : Type} [LinearOrder κ] [DecidableLT κ] {tol : ℚ} {value slope : ι → ℚ} {key : ι → κ}
  {is is' : List ι}

/-- A stage has to be compared on lists with a first candidate only. -/
private theorem stage_perm {keep : List ι → List ι}
    (hcons : ∀ {i is i' is'}, (i :: is).Perm (i' :: is') → (keep (i :: is)).Perm (keep (i' :: is')))
    (h : is.Perm is') : (keep is).Perm (keep is') := by
  cases is with
  | nil => rw [List.nil_perm.1 h]
  | cons i is =>
    cases is' with
    | nil =>
      rw [List.perm_nil.1 h]
    | cons i' is' => exact hcons h

/-- The stage of smallest values keeps the same candidates in any order. -/
theorem nearSmallest_perm (tol : ℚ) (value : ι → ℚ) (h : is.Perm is') :
    (nearSmallest tol value is).Perm (nearSmallest tol value is') := by
  refine stage_perm (fun h => ?_) h
  unfold nearSmallest
  dsimp only
  -- Best value and scale are the same in any order.
  rw [Scalar.foldl_smaller_perm value h, Scalar.foldl_larger_perm (fun j => Scalar.abs (value j)) h]
  exact h.filter _

/-- The stage of largest slopes keeps the same candidates in any order. -/
theorem nearLargest_perm (tol : ℚ) (value : ι → ℚ) (h : is.Perm is') :
    (nearLargest tol value is).Perm (nearLargest tol value is') := by
  refine stage_perm (fun h => ?_) h
  unfold nearLargest
  dsimp only
  rw [Scalar.foldl_larger_perm value h, Scalar.foldl_larger_perm (fun j => Scalar.abs (value j)) h]
  exact h.filter _

/-- The stage of largest values keeps the same candidates in any order. -/
theorem nextToLargest_perm (tol : ℚ) (value : ι → ℚ) (h : is.Perm is') :
    (nextToLargest tol value is).Perm (nextToLargest tol value is') := by
  refine stage_perm (fun h => ?_) h
  unfold nextToLargest
  dsimp only
  rw [Scalar.foldl_larger_perm value h]
  exact h.filter _

/-- Whether there are several candidates does not depend on their order. -/
theorem ifSeveral_perm {keep : List ι → List ι} (hkeep : (keep is).Perm (keep is'))
    (h : is.Perm is') : (ifSeveral keep is).Perm (ifSeveral keep is') := by
  unfold ifSeveral
  rw [h.length_eq]
  split
  · exact h
  · exact hkeep

/-- The key of the first candidate of smallest key is the smallest. -/
theorem smallestKey_le {i : ι} (h : smallestKey key is = some i) : ∀ j ∈ is, key i ≤ key j := by
  induction is generalizing i with
  | nil => exact nofun
  | cons k is ih =>
    unfold smallestKey at h
    -- The candidate in front wins unless one behind it has a smaller key.
    cases hrest : smallestKey key is with
    | none =>
      rw [hrest] at h
      obtain rfl := Option.some.inj h
      rw [smallestKey_eq_none_iff.1 hrest]
      exact List.forall_mem_singleton.2 le_rfl
    | some l =>
      rw [hrest] at h
      have hle := ih hrest
      dsimp only at h
      split at h
      · next hlt =>
        obtain rfl := Option.some.inj h
        exact List.forall_mem_cons.2 ⟨hlt.le, hle⟩
      · next hge =>
        obtain rfl := Option.some.inj h
        exact List.forall_mem_cons.2 ⟨le_rfl, fun j hj => (not_lt.1 hge).trans (hle j hj)⟩

/-- Where no two candidates have the same key, the smallest one picks the same candidate in any
    order. -/
theorem smallestKey_perm (h : is.Perm is') (hkey : ∀ i ∈ is, ∀ j ∈ is, key i = key j → i = j) :
    smallestKey key is = smallestKey key is' := by
  cases hi : smallestKey key is with
  | none =>
    rw [smallestKey_eq_none_iff.1 hi] at h
    rw [List.nil_perm.1 h]
    rfl
  | some i =>
    cases hj : smallestKey key is' with
    | none =>
      rw [smallestKey_eq_none_iff.1 hj] at h
      rw [List.perm_nil.1 h] at hi
      exact nomatch hi
    | some j =>
      have himem := mem_of_smallestKey hi
      have hjmem := h.mem_iff.2 (mem_of_smallestKey hj)
      -- Either has the smallest key, and there is one candidate with that.
      have hle := smallestKey_le hi j hjmem
      have hge := smallestKey_le hj i (h.mem_iff.1 himem)
      rw [hkey i himem j hjmem (le_antisymm hle hge)]

/-- The order in which candidates are listed does not matter where they have different keys. -/
theorem argmin_perm (h : is.Perm is') (hkey : ∀ i ∈ is, ∀ j ∈ is, key i = key j → i = j) :
    argmin tol value slope key is = argmin tol value slope key is' := by
  have hstages := ifSeveral_perm (nearLargest_perm tol slope (nearSmallest_perm tol value h))
    (nearSmallest_perm tol value h)
  -- What the stages leave are candidates, so their keys differ as well.
  have hmem : ∀ i ∈ ifSeveral (nearLargest tol slope) (nearSmallest tol value is), i ∈ is := by
    intro i hi
    unfold ifSeveral at hi
    split at hi
    · exact mem_of_mem_nearSmallest hi
    · exact mem_of_mem_nearSmallest (mem_of_mem_nearLargest hi)
  unfold argmin
  rw [smallestKey_perm hstages fun i hi j hj => hkey i (hmem i hi) j (hmem j hj), h.isEmpty_eq]

/-- Nor does it for the largest value. -/
theorem argmax_perm (h : is.Perm is') (hkey : ∀ i ∈ is, ∀ j ∈ is, key i = key j → i = j) :
    argmax tol value key is = argmax tol value key is' := by
  have hstage := nextToLargest_perm tol value h
  have hmem : ∀ i ∈ nextToLargest tol value is, i ∈ is := fun i => mem_of_mem_nextToLargest
  unfold argmax
  dsimp only
  rw [finite_eq_self, finite_eq_self,
    smallestKey_perm hstage fun i hi j hj => hkey i (hmem i hi) j (hmem j hj), h.isEmpty_eq]

end Selection

end ParametricLP
