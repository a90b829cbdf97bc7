import ParametricLP.Scalar

/-! # Deterministic selection among tied candidates

Every pivot is the result of a selection: the smallest ratio, or the largest crossing. Numbers
within a relative tolerance of the best count as tied, and ties are broken in a fixed order, in the
end by the smallest key, so that two runs on the same data agree.

Candidates come as a list of any type together with the functions that read their numbers off. The
outcome tells three cases apart: there was nothing to choose from, the comparisons left no candidate
(which happens where a number is undefined or the tolerance is not positive), or one was chosen. -/

namespace ParametricLP

variable {α ι κ : Type} [Scalar α] [LT κ] [DecidableLT κ]

/-- Outcome of a selection. -/
inductive Choice (ι : Type) where
  /-- There was no candidate. -/
  | empty
  /-- There were candidates, but no comparison with the best one succeeded. -/
  | undetermined
  /-- The selected candidate. -/
  | chosen (i : ι)
  deriving DecidableEq, Repr

namespace Choice

/-- The chosen candidate, if there is one. -/
def toOption : Choice ι → Option ι
  | .chosen i => some i
  | _ => none

/-- A selection among tied candidates, which cannot be empty. -/
def ofTied : Option ι → Choice ι
  | some i => .chosen i
  | none => .undetermined

end Choice

namespace Selection

/-- The first candidate of smallest key. -/
def smallestKey (key : ι → κ) : List ι → Option ι
  | [] => none
  | i :: is =>
    match smallestKey key is with
    | none => some i
    | some j => if key j < key i then some j else some i

/-- Candidates whose value is within `tol` of the smallest, relative to the largest in size. -/
def nearSmallest (tol : α) (value : ι → α) : List ι → List ι
  | [] => []
  | i :: is =>
    let best := is.foldl (fun b j => Scalar.smaller b (value j)) (value i)
    let size := is.foldl (fun s j => Scalar.larger s (Scalar.abs (value j))) (Scalar.abs (value i))
    let bound := best + tol * Scalar.atLeastOne size
    (i :: is).filter fun j => value j ≤ bound

/-- Candidates whose value is within `tol` of the largest, relative to the largest in size. -/
def nearLargest (tol : α) (value : ι → α) : List ι → List ι
  | [] => []
  | i :: is =>
    let best := is.foldl (fun b j => Scalar.larger b (value j)) (value i)
    let size := is.foldl (fun s j => Scalar.larger s (Scalar.abs (value j))) (Scalar.abs (value i))
    let bound := best - tol * Scalar.atLeastOne size
    (i :: is).filter fun j => bound ≤ value j

/-- A filter that leaves a list of at most one candidate alone. -/
def ifSeveral (keep : List ι → List ι) (is : List ι) : List ι :=
  if is.length ≤ 1 then is else keep is

/-- The candidate smallest in `value - eps * slope` for a vanishing `eps`: of those with nearly the
    smallest value the ones with nearly the largest slope, and of these the first of smallest key.
    -/
def argmin (tol : α) (value slope : ι → α) (key : ι → κ) (is : List ι) : Choice ι :=
  if is.isEmpty then
    .empty
  else
    .ofTied (smallestKey key (ifSeveral (nearLargest tol slope) (nearSmallest tol value is)))

/-- Candidates of finite value. -/
def finite (value : ι → α) (is : List ι) : List ι :=
  is.filter fun i => Scalar.isFinite (value i)

/-- Candidates whose value is within `tol` of the largest, relative to the largest itself. -/
def nextToLargest (tol : α) (value : ι → α) : List ι → List ι
  | [] => []
  | i :: is =>
    let best := is.foldl (fun b j => Scalar.larger b (value j)) (value i)
    let bound := best - tol * Scalar.atLeastOne (Scalar.abs best)
    (i :: is).filter fun j => bound ≤ value j

/-- The candidate of largest finite value, the first of smallest key among those within `tol` of it.
    -/
def argmax (tol : α) (value : ι → α) (key : ι → κ) (is : List ι) : Choice ι :=
  -- An undefined or infinite value is no crossing.
  let is := finite value is
  if is.isEmpty then .empty else .ofTied (smallestKey key (nextToLargest tol value is))

/-! ### What is selected comes from the candidates -/

theorem smallestKey_eq_none_iff {key : ι → κ} {is : List ι} :
    smallestKey key is = none ↔ is = [] := by
  cases is with
  | nil => simp [smallestKey]
  | cons i is =>
    simp only [smallestKey, reduceCtorEq, iff_false]
    split
    · simp
    · split <;> simp

theorem mem_of_smallestKey {key : ι → κ} {is : List ι} {i : ι}
    (h : smallestKey key is = some i) : i ∈ is := by
  induction is with
  | nil => simp [smallestKey] at h
  | cons j is ih =>
    simp only [smallestKey] at h
    split at h
    · simp_all
    · rename_i k hk
      split at h
      · simp only [Option.some.injEq] at h
        subst h
        exact List.mem_cons_of_mem _ (ih hk)
      · simp_all

theorem mem_of_mem_nearSmallest {tol : α} {value : ι → α} {is : List ι} {i : ι}
    (h : i ∈ nearSmallest tol value is) : i ∈ is := by
  cases is with
  | nil => simp [nearSmallest] at h
  | cons j is => exact (List.mem_filter.1 h).1

theorem mem_of_mem_nearLargest {tol : α} {value : ι → α} {is : List ι} {i : ι}
    (h : i ∈ nearLargest tol value is) : i ∈ is := by
  cases is with
  | nil => simp [nearLargest] at h
  | cons j is => exact (List.mem_filter.1 h).1

theorem ofTied_eq_chosen_iff {o : Option ι} {i : ι} : Choice.ofTied o = .chosen i ↔ o = some i := by
  cases o <;> simp [Choice.ofTied]

/-- What `argmin` chooses is a candidate. -/
theorem mem_of_argmin {tol : α} {value slope : ι → α} {key : ι → κ} {is : List ι} {i : ι}
    (h : argmin tol value slope key is = .chosen i) : i ∈ is := by
  simp only [argmin] at h
  split at h
  · exact nomatch h
  · have hi := mem_of_smallestKey (ofTied_eq_chosen_iff.1 h)
    -- Each stage only leaves candidates out.
    simp only [ifSeveral] at hi
    split at hi
    · exact mem_of_mem_nearSmallest hi
    · exact mem_of_mem_nearSmallest (mem_of_mem_nearLargest hi)

/-- `argmin` reports that there was nothing to choose from exactly where there was not. -/
theorem argmin_eq_empty_iff {tol : α} {value slope : ι → α} {key : ι → κ} {is : List ι} :
    argmin tol value slope key is = .empty ↔ is = [] := by
  cases is with
  | nil => simp [argmin]
  | cons i is =>
    simp only [argmin, List.isEmpty_cons, Bool.false_eq_true, ↓reduceIte, reduceCtorEq, iff_false]
    cases smallestKey key _ <;> simp [Choice.ofTied]

theorem mem_of_mem_nextToLargest {tol : α} {value : ι → α} {is : List ι} {i : ι}
    (h : i ∈ nextToLargest tol value is) : i ∈ is := by
  cases is with
  | nil => simp [nextToLargest] at h
  | cons j is => exact (List.mem_filter.1 h).1

/-- What `argmax` chooses is a candidate with a finite value. -/
theorem mem_of_argmax {tol : α} {value : ι → α} {key : ι → κ} {is : List ι} {i : ι}
    (h : argmax tol value key is = .chosen i) : i ∈ is ∧ Scalar.isFinite (value i) = true := by
  simp only [argmax] at h
  split at h
  · exact nomatch h
  · have hi := mem_of_smallestKey (ofTied_eq_chosen_iff.1 h)
    -- The candidates compared are those with a finite value.
    exact List.mem_filter.1 (mem_of_mem_nextToLargest hi)

end Selection

end ParametricLP
