import Mathlib
import ParametricLP.Proofs.Selection.Permutation
import ParametricLP.Selection.Block

/-!
# Selections on blocks of one extent

`Selection.positionOfMin` and `Selection.positionOfMax` choose from blocks of any extents. On blocks
of one extent, which are vectors, they choose as `Selection.argmin` and `Selection.argmax` do from
the positions of the entries, whatever the scalars are. A selection that cannot be made is an error
of one kind or the other.

## Key results

- `Block.take_ofVector`: slices of a vector at given positions
- `positionOfMin_ofVector`, `positionOfMax_ofVector`: selections on vectors
-/

namespace ParametricLP

/-! ## Blocks of one extent -/

namespace Block

variable {α : Type} {n k : ℕ}

/-- The entries of a block of one extent are those of the vector. -/
@[simp]
theorem entries_ofVector (v : Vector α n) : (ofVector v).entries = v.toList := by
  rw [entries, ofVector, Tensor.entries_cons]
  exact List.flatMap_singleton' _

/-- A block of one extent is determined by its entries. -/
theorem ofList_toList (v : Vector α n) : ofList v.toList = ofVector v := by
  obtain ⟨xs, rfl⟩ := v
  rfl

/-- Positions counted from the front are in range. -/
theorem mapOption_resolve?_ofVector (is : Vector (Fin n) k) :
    (ofVector (is.map fun i => (i.val : ℤ))).mapOption (resolve? n) = some (ofVector is) := by
  have hresolve : (resolve? n ∘ fun i : Fin n => (i.val : ℤ)) = fun i => pure i :=
    funext fun i => resolve?_natCast i.isLt
  change (Vector.mapM (resolve? n) (is.map fun i => (i.val : ℤ))).map ofVector = _
  rw [Vector.mapM_map, hresolve, Vector.mapM_pure, Vector.map_id']
  rfl

/-- The slices at these positions are the entries there. -/
theorem take_ofVector (v : Vector α n) (is : Vector (Fin n) k) :
    (ofVector v).take (ofVector (is.map fun i => (i.val : ℤ))) = .ok (ofVector (is.map v.get)) := by
  have hpositions := mapOption_resolve?_ofVector is
  unfold ofVector at hpositions ⊢
  rw [take, hpositions]
  dsimp only
  change Except.ok (ofVector ((is.map v.get).map fun x => x)) = _
  rw [Vector.map_id']
  rfl

end Block

/-- A choice among positions as an answer; `cause` is the complaint where no candidate is left. -/
def Choice.answer {n : ℕ} (cause : BlockError) : Choice (Fin n) → Except BlockError (Option ℕ)
  | .empty => .ok none
  | .undetermined => .error cause
  | .chosen i => .ok (some i)

namespace Selection

variable {α : Type} [Scalar α] {n : ℕ}

/-! ## Candidates -/

/-- Positions among the entries of a vector, each with something that was found there. -/
def locate {β : Type} (found : Fin n → β) (is : List (Fin n)) : List (Located β) :=
  is.map fun i => (found i, i.val)

/-- The entries of a vector are found at its positions. -/
theorem located_ofVector {β : Type} (v : Vector β n) :
    located (.ofVector v) = locate v.get (List.finRange n) := by
  rw [located, Block.entries_ofVector, locate]
  apply List.ext_getElem
  · simp
  · intro i hi hi'
    simp [Vector.get_eq_getElem]

/-- What is looked up at positions are the entries there. -/
theorem lookUp_locate {β γ : Type} (v : Vector β n) (found : Fin n → γ) (is : List (Fin n)) :
    lookUp (.ofVector v) (locate found is) = .ok (.ofList (is.map v.get)) := by
  obtain ⟨k, js, rfl⟩ : ∃ k, ∃ js : Vector (Fin n) k, is = js.toList := ⟨_, ⟨is.toArray, rfl⟩, rfl⟩
  rw [lookUp, locate, List.map_map, ← Vector.toList_map, ← Vector.toList_map, Block.ofList_toList,
    Block.ofList_toList]
  exact Block.take_ofVector v js

/-- Positions are kept with what was found there. -/
theorem map_snd_locate {β : Type} (found : Fin n → β) (is : List (Fin n)) :
    (locate found is).map (·.2) = is.map Fin.val := by
  rw [locate, List.map_map]
  rfl

/-! ## The smallest -/

/-- Slopes are compared as among the positions themselves. -/
theorem keepLargestSlopes_ofList (tol : α) (slope : Fin n → α) (is : List (Fin n)) :
    keepLargestSlopes tol (.ofList (is.map slope)) (is.map Fin.val) =
      .ok ((nearLargest tol slope is).map Fin.val) := by
  change Except.ok ((nearLargest tol (·.1) ((is.map slope).zip (is.map Fin.val))).map (·.2)) = _
  rw [List.zip_map', nearLargest_map, List.map_map]
  rfl

/-- Slopes are consulted where several candidates are left, as among the positions. -/
theorem consult_keepLargestSlopes {β : Type} (tol : α) (slopes : Vector α n) (found : Fin n → β)
    (is : List (Fin n)) :
    consult (.ofVector slopes) (keepLargestSlopes tol) (locate found is) =
      .ok ((ifSeveral (nearLargest tol slopes.get) is).map Fin.val) := by
  have hlength : (locate found is).length = is.length := List.length_map _
  unfold consult ifSeveral
  dsimp only
  -- A single candidate is kept without looking its slope up.
  rw [hlength, map_snd_locate, lookUp_locate]
  split
  · rfl
  · exact keepLargestSlopes_ofList tol slopes.get is

/-- So are keys. -/
theorem keepSmallestKey_ofList (key : Fin n → ℤ) (is : List (Fin n)) :
    keepSmallestKey (.ofList (is.map key)) (is.map Fin.val) =
      .ok ((smallestKey key is).map Fin.val).toList := by
  change Except.ok ((smallestKey (·.1) ((is.map key).zip (is.map Fin.val))).map (·.2)).toList = _
  rw [List.zip_map', smallestKey_map, Option.map_map]
  rfl

/-- Keys are consulted likewise, and one position is left. -/
theorem consult_keepSmallestKey {β : Type} (keys : Vector ℤ n) (found : Fin n → β)
    (is : List (Fin n)) : consult (.ofVector keys) keepSmallestKey (locate found is) =
      .ok ((smallestKey keys.get is).map Fin.val).toList := by
  have hlength : (locate found is).length = is.length := List.length_map _
  unfold consult
  dsimp only
  rw [hlength, map_snd_locate, lookUp_locate]
  split
  · next hle =>
    -- Without consulting keys a single candidate is the one of smallest key.
    cases is with
    | nil => rfl
    | cons i js =>
      obtain rfl : js = [] := by simpa using hle
      rfl
  · exact keepSmallestKey_ofList keys.get is

/-- On vectors `positionOfMin` is `argmin`. -/
theorem positionOfMin_ofVector (tol : α) (values slopes : Vector α n) (keys : Vector ℤ n) :
    positionOfMin tol (.ofVector values) (.ofVector slopes) (.ofVector keys) =
      (argmin tol values.get slopes.get keys.get (List.finRange n)).answer .index := by
  -- There are as many entries as positions.
  have hempty : (Block.ofVector values).entries.isEmpty = (List.finRange n).isEmpty := by
    rw [Block.entries_ofVector, Bool.eq_iff_iff, List.isEmpty_iff_length_eq_zero,
      List.isEmpty_iff_length_eq_zero, Vector.length_toList, List.length_finRange]
  have htied : nearSmallest tol (·.1) (located (.ofVector values)) =
      locate values.get (nearSmallest tol values.get (List.finRange n)) := by
    rw [located_ofVector, locate, nearSmallest_map]
    rfl
  have hunit (is : List (Fin n)) :
      (is.map Fin.val).map (fun i => ((), i)) = locate (fun _ => ()) is := List.map_map
  unfold positionOfMin argmin
  dsimp only
  rw [hempty, htied, consult_keepLargestSlopes]
  split
  · rfl
  · simp only [bind, Except.bind, hunit, consult_keepSmallestKey]
    cases smallestKey keys.get (ifSeveral (nearLargest tol slopes.get)
      (nearSmallest tol values.get (List.finRange n))) with
    | none => rfl
    | some i => rfl

/-! ## The largest -/

/-- At the position of the smallest of some keys is the candidate that it belongs to. -/
theorem map_getElem?_smallestKey {ι : Type} (key : ι → ℤ) (is : List ι) :
    (smallestKey (·.1) (is.map key).zipIdx).map (fun k => is[k.2]?) =
      (smallestKey key is).map some := by
  -- The key of a candidate stands at its position in the list of keys.
  have hmap : smallestKey key is = (smallestKey (key ∘ Prod.fst) is.zipIdx).map Prod.fst := by
    rw [← smallestKey_map, List.zipIdx_map_fst]
  rw [hmap, List.zipIdx_map, smallestKey_map, Option.map_map, Option.map_map]
  change (smallestKey (key ∘ Prod.fst) is.zipIdx).map (fun i => is[i.2]?) = _
  cases h : smallestKey (key ∘ Prod.fst) is.zipIdx with
  | none => rfl
  | some i => exact congrArg some (List.mem_zipIdx_iff_getElem?.1 (mem_of_smallestKey h))

/-- On vectors `positionOfMax` is `argmax`. -/
theorem positionOfMax_ofVector (tol : α) (values : Vector α n) (keys : Vector ℤ n) :
    positionOfMax tol (.ofVector values) (.ofVector keys) =
      (argmax tol values.get keys.get (List.finRange n)).answer .extents := by
  have hfinite : finite (·.1) (located (.ofVector values)) =
      locate values.get (finite values.get (List.finRange n)) := by
    rw [located_ofVector, locate, finite, List.filter_map]
    rfl
  have htied : nextToLargest tol (·.1) (locate values.get (finite values.get (List.finRange n))) =
      locate values.get (nextToLargest tol values.get (finite values.get (List.finRange n))) := by
    rw [locate, nextToLargest_map]
    rfl
  have hlocated (ks : List ℤ) : located (.ofList ks) = ks.zipIdx := by
    rw [located, Block.ofList, Block.entries_ofVector]
    rfl
  unfold positionOfMax argmax
  dsimp only
  rw [hfinite, htied, lookUp_locate, locate, List.isEmpty_map]
  split
  · rfl
  · simp only [bind, Except.bind, hlocated, locate, List.getElem?_map]
    -- Keys are looked up for the tied candidates, and the answer is one of these.
    generalize nextToLargest tol values.get (finite values.get (List.finRange n)) = tied
    -- Both searches for a smallest key succeed or fail together.
    have hkey := map_getElem?_smallestKey keys.get tied
    cases hfirst : smallestKey (·.1) (tied.map keys.get).zipIdx with
    | none =>
      rw [hfirst, eq_comm, Option.map_none, Option.map_eq_none_iff] at hkey
      rw [hkey]
      rfl
    | some k =>
      rw [hfirst, Option.map_some, eq_comm, Option.map_eq_some_iff] at hkey
      obtain ⟨i, hi, hk⟩ := hkey
      dsimp only
      rw [hi, ← hk]
      rfl

end Selection

end ParametricLP
