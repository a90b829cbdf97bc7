import ParametricLP.Block.Inverse
import ParametricLP.Tableau

/-! # Tableaus driven by hand

A `Session` is a tableau whose rows and columns are named by positions, which may be counted from
the end, and whose starting basis is taken as it is given. It remembers for each row the name under
which its column was given. A pivot whose inverse cannot be computed afresh leaves the exchanged
basis behind. -/

namespace ParametricLP

variable {α : Type} [Scalar α] {m n : Nat}

/-- A tableau together with the names of the columns that its rows hold. -/
structure Session (α : Type) (m n : Nat) where
  tableau : Tableau α m n
  labels : Vector Int m
  /-- Number of corrections after which the inverse is computed afresh. -/
  refactorEvery : Nat

namespace Session

/-- The index of a position, or the complaint that there is none. -/
def position (n : Nat) (i : Int) : Except InverseError (Fin n) :=
  match resolve? n i with
  | some i => .ok i
  | none => .error (.block .index)

/-- A session at the starting basis of a problem. -/
def ofInstance (p : Instance α m n) (every : Int) : Except InverseError (Session α m n) := do
  let tableau ← (Tableau.start p).mapError .singular
  return ⟨tableau, p.basis.map fun j => (j.val : Int), every.toNat⟩

/-- The columns of a problem at a block of positions, which need not be a basis. -/
def columnsAt (p : Instance α m n) (columns : Block (Fin n)) : Block α :=
  ⟨m :: columns.shape, p.matrix.map fun row => columns.cells.map fun j => row[j]⟩

/-- A session at a basis given by positions: a list of as many as there are rows. Positions of any
    other shape are refused as the matrix of their columns is. -/
def ofLabels (p : Instance α m n) (labels : Nested Int) (every : Int) :
    Except InverseError (Session α m n) := do
  let labels ← labels.positions.mapError .block
  match labels.mapOption (resolve? n), labels with
  | none, _ => .error (.block .index)
  | some ⟨[k], columns⟩, ⟨[l], labels⟩ =>
    if h : k = m ∧ l = m then
      let tableau ← (Tableau.ofBasis p (h.1 ▸ columns)).mapError .singular
      return ⟨tableau, h.2 ▸ labels, every.toNat⟩
    else
      .error (.singular .notSquare)
  | some columns, _ => do
    let _ ← (columnsAt p columns).inverse Mat.conditionTol
    .error (.block .extents)

/-- The inverse computed afresh. -/
def refactor (p : Instance α m n) (s : Session α m n) : Except InverseError (Session α m n) :=
  match s.tableau.refactor p with
  | .ok tableau => .ok { s with tableau }
  | .error cause => .error (.singular cause)

/-- Exchanges the column held by a row, and returns the name of the column that left. -/
def pivot (p : Instance α m n) (s : Session α m n) (row entering : Int) :
    Except InverseError Int × Session α m n :=
  match resolve? m row, resolve? n entering with
  | some i, some j =>
    let labels := s.labels.set i entering i.isLt
    match s.tableau.pivot p s.refactorEvery i j with
    | .ok tableau => (.ok s.labels[i], { s with tableau, labels })
    | .error cause =>
      (.error (.singular cause), { s with tableau := s.tableau.swap i j, labels })
  | _, _ => (.error (.block .index), s)

/-- The direction in which the basic values move when a column enters. -/
def column (p : Instance α m n) (s : Session α m n) (j : Int) :
    Except InverseError (Vector α m) := do
  return s.tableau.column p (← position n j)

/-- A row of the inverse times the problem's matrix. -/
def row (p : Instance α m n) (s : Session α m n) (i : Int) :
    Except InverseError (Vector α n) := do
  return s.tableau.row p (← position m i)

end Session

end ParametricLP
