/-! # Arrays with any number of extents

`Tensor α s` is an array of entries of type `α` whose extents, outermost first, are the list `s`. It
is built from vectors, so that a tensor of two extents is a vector of rows and one without extents
is a single entry. `Tensor.entries` lists what a tensor holds; the other operations are described by
it.

Tensors of different extents are combined after stretching: the shorter list of extents is padded
with ones in front, and an extent of one is repeated to any length (`commonShape?`,
`Tensor.stretch?`). -/

namespace ParametricLP

/-- An array with the given extents, outermost first. -/
abbrev Tensor (α : Type) : List Nat → Type
  | [] => α
  | n :: s => Vector (Tensor α s) n

namespace Tensor

variable {α β γ : Type}

/-- The entries, those of the first slice first. -/
def entries : {s : List Nat} → Tensor α s → List α
  | [], x => [x]
  | _ :: _, v => (Vector.toList v).flatMap entries

/-- A function applied to every entry. -/
def map (f : α → β) : {s : List Nat} → Tensor α s → Tensor β s
  | [], x => f x
  | _ :: _, v => Vector.map (map f) v

/-- A function that may fail applied to every entry. -/
def mapOption (f : α → Option β) : {s : List Nat} → Tensor α s → Option (Tensor β s)
  | [], x => f x
  | _ :: _, v => Vector.mapM (mapOption f) v

/-- The entries of two tensors combined one by one. -/
def zipWith (f : α → β → γ) : {s : List Nat} → Tensor α s → Tensor β s → Tensor γ s
  | [], x, y => f x y
  | _ :: _, v, w => Vector.zipWith (zipWith f) v w

/-- A tensor of tensors as one tensor. -/
def join : {s t : List Nat} → Tensor (Tensor α t) s → Tensor α (s ++ t)
  | [], _, x => x
  | _ :: _, _, v => Vector.map join v

/-- A function of lists applied along the innermost extent, which it removes. -/
def alongInnermost (f : List α → β) :
    {n : Nat} → {s : List Nat} → Tensor α (n :: s) → Tensor β (n :: s).dropLast
  | _, [], v => f (Vector.toList v)
  | _, _ :: _, v => Vector.map (alongInnermost f) v

end Tensor

/-! ### Stretching -/

/-- A list of extents padded with ones in front to `k` more. -/
def paddedShape (k : Nat) (s : List Nat) : List Nat :=
  List.replicate k 1 ++ s

/-- The extents to which two tensors of equally many extents can both be stretched. -/
def stretchedShape? : List Nat → List Nat → Option (List Nat)
  | [], [] => some []
  | a :: s, b :: t => do
    let rest ← stretchedShape? s t
    if a = b then return a :: rest
    else if a = 1 then return b :: rest
    else if b = 1 then return a :: rest
    else none
  | _, _ => none

/-- The extents to which two tensors can both be stretched. -/
def commonShape? (s t : List Nat) : Option (List Nat) :=
  stretchedShape? (paddedShape (t.length - s.length) s) (paddedShape (s.length - t.length) t)

namespace Tensor

variable {α β γ : Type}

/-- A tensor with `k` extents of one in front. -/
def pad : (k : Nat) → {s : List Nat} → Tensor α s → Tensor α (paddedShape k s)
  | 0, _, x => x
  | k + 1, _, x => (#v[pad k x] : Vector _ 1)

/-- A tensor stretched to as many other extents. -/
def widen? : {s : List Nat} → (t : List Nat) → Tensor α s → Option (Tensor α t)
  | [], [], x => some x
  | a :: _, b :: t, v =>
    if h : a = b then
      h ▸ Vector.mapM (widen? t) v
    else if h : a = 1 then
      (widen? t (Vector.get v ⟨0, by omega⟩)).map (Vector.replicate b)
    else
      none
  | [], _ :: _, _ => none
  | _ :: _, [], _ => none

/-- A tensor stretched to other extents, if they have room for its own. -/
def stretch? {s : List Nat} (t : List Nat) (x : Tensor α s) : Option (Tensor α t) :=
  widen? t (x.pad (t.length - s.length))

/-! ### Entries -/

@[simp] theorem entries_single (x : α) : entries (s := []) x = [x] := rfl

theorem entries_cons {n : Nat} {s : List Nat} (v : Vector (Tensor α s) n) :
    entries (s := n :: s) v = v.toList.flatMap entries := rfl

@[simp] theorem entries_map (f : α → β) {s : List Nat} (x : Tensor α s) :
    (x.map f).entries = x.entries.map f := by
  induction s with
  | nil => rfl
  | cons n s ih =>
    change (Vector.toList (Vector.map (map f) x)).flatMap entries = _
    rw [entries_cons, Vector.toList_map, List.flatMap_map, List.map_flatMap]
    simp only [ih]

/-- A tensor has as many entries as its extents multiply to. -/
theorem length_entries {s : List Nat} (x : Tensor α s) : x.entries.length = s.foldr (· * ·) 1 := by
  induction s with
  | nil => rfl
  | cons n s ih =>
    have h : ∀ v : List (Tensor α s), (v.flatMap entries).length = v.length * s.foldr (· * ·) 1 := by
      intro v
      induction v with
      | nil => simp
      | cons y v hv => rw [List.flatMap_cons, List.length_append, hv, ih y, List.length_cons,
          Nat.succ_mul, Nat.add_comm]
    rw [entries_cons, h, Vector.length_toList, List.foldr_cons]

end Tensor

end ParametricLP
