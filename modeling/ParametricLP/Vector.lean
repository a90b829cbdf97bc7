/-! # Entries of a vector

A position in a vector of `n` entries is a `Fin n`, and reading at one needs no bound to be proved. -/

namespace ParametricLP

variable {α : Type} {n : Nat}

@[inline] instance getElemFin : GetElem (Vector α n) (Fin n) α (fun _ _ => True) where
  getElem v i _ := getElem v i.val i.isLt

@[simp] theorem getElem_fin (v : Vector α n) (i : Fin n) : v[i] = getElem v i.val i.isLt :=
  rfl

end ParametricLP
