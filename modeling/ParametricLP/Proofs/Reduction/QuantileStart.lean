import Mathlib
import ParametricLP.Proofs.Reduction.Quantile
import ParametricLP.Proofs.Reduction.SplitStart

/-!
# The start of quantile regression

Without an intercept every response is its own residual and is priced by its sign. With an intercept
the observation at position `⌊tau * n⌋` of the ordered responses is fitted exactly, those before it lie
below the fit and the others above. The prices `tau` and `tau - 1` of the parts then miss balance by
less than one, which is what the price of the observation fitted makes up for.

## Key results

- `position_eq_floor`: the position among the ordered responses
- `map_order`: ordering the observations sorts the responses
- `exists_divides`: the observation there divides the responses
- `price_mem`, `sum_price`: its price is in bounds, and all prices are balanced
- `exists_flatStart`: the basis fits the response at that position, or nothing
- `exists_startsOptimal`: a start that no tolerance refuses
-/

namespace ParametricLP.Quantile

open Matrix SplitResiduals

variable {n d : ℕ} {D : Design ℚ n d} {tau : ℚ} {intercept : Bool}

/-! ## Without an intercept -/

/-- Without an intercept every row holds the part of its response that is not zero. -/
theorem flatStart_false (D : Design ℚ n d) (tau : ℚ) (a : Fin n) :
    FlatStart (start d D.response tau false) (interceptBlock n false) D.response tau (1 - tau) a
      nofun fun i => if 0 ≤ D.response[i] then tau else -(1 - tau) := by
  have hempty : IsEmpty (Fin (interceptWidth false)) := Fin.isEmpty
  constructor
  · exact fun j => hempty.elim j
  · exact fun j => hempty.elim j
  · intro i
    have hleft : (entries D.response - (interceptBlock n false).toMatrix *ᵥ nofun) i =
        D.response[i] := by
      simp [Matrix.mulVec, dotProduct]
    have hcolumn : (start d D.response tau false)[i] =
        if 0 ≤ D.response[i] then above d false i else below d false i := by
      simp [start, startWithout]
    rw [hleft, hcolumn]
    split
    · next hsign => exact .above rfl hsign rfl
    · next hsign => exact .below rfl (not_le.1 hsign).le rfl
  · funext j
    exact hempty.elim j

/-! ## The order of the responses -/

/-- The order lists responses from the smallest to the largest. -/
theorem order_pairwise (y : Vector ℚ n) : (order y).Pairwise fun i j => y[i] ≤ y[j] := by
  have hsorted : (order y).Pairwise fun i j => decide (y[i] ≤ y[j]) = true := by
    apply List.pairwise_mergeSort
    · intro i j k
      simp only [decide_eq_true_eq]
      exact le_trans
    · intro i j
      simp only [Bool.or_eq_true, decide_eq_true_eq]
      exact le_total _ _
  simpa only [decide_eq_true_eq] using hsorted

/-- It lists every observation once. -/
theorem order_perm (y : Vector ℚ n) : (order y).Perm (List.finRange n) :=
  List.mergeSort_perm _ _

/-- Read in this order the responses are sorted. -/
theorem map_order (y : Vector ℚ n) : (order y).map (fun i => y[i]) = y.toList.mergeSort := by
  have hperm : ((order y).map fun i => y[i]).Perm y.toList := by
    rw [← map_finRange_getElem y]
    exact (order_perm y).map _
  -- Two sorted lists with the same members are equal.
  apply List.Perm.eq_of_sortedLE
  · exact (List.pairwise_map.2 (order_pairwise y)).sortedLE
  · exact List.sortedLE_mergeSort
  · exact hperm.trans (List.mergeSort_perm _ _).symm

/-- No response of `before` is larger than that of `a`, and no other is smaller. -/
structure Divides (y : Vector ℚ n) (before : List (Fin n)) (a : Fin n) : Prop where
  nodup : before.Nodup
  notMem : a ∉ before
  le : ∀ i ∈ before, y[i] ≤ y[a]
  ge : ∀ i, i ∉ before → y[a] ≤ y[i]

/-- The observation at a position of the order divides the responses. -/
theorem exists_divides (y : Vector ℚ n) {k : ℕ} (hk : k < n) :
    ∃ a, (order y)[k]? = some a ∧ Divides y ((order y).take k) a ∧
      ((order y).take k).length = k := by
  have hperm := order_perm y
  have hlength : (order y).length = n := by rw [hperm.length_eq, List.length_finRange]
  have hk' : k < (order y).length := by omega
  -- Cut at the position, the order says what lies on either side.
  have hsplit : order y = (order y).take k ++ (order y)[k] :: (order y).drop (k + 1) := by
    rw [← List.drop_eq_getElem_cons hk', List.take_append_drop]
  have hsorted := order_pairwise y
  have hnodup := hperm.nodup_iff.2 (List.nodup_finRange n)
  rw [hsplit] at hsorted hnodup
  obtain ⟨-, hafter, hbefore⟩ := List.pairwise_append.1 hsorted
  obtain ⟨hfirst, -, hdisjoint⟩ := List.nodup_append.1 hnodup
  refine ⟨(order y)[k], List.getElem?_eq_getElem hk', ⟨hfirst, ?_, ?_, ?_⟩, ?_⟩
  · intro hmem
    exact hdisjoint _ hmem _ List.mem_cons_self rfl
  · intro i hi
    exact hbefore i hi _ List.mem_cons_self
  · intro i hi
    have hmem : i ∈ order y := hperm.mem_iff.2 (List.mem_finRange i)
    rw [hsplit, List.mem_append, List.mem_cons] at hmem
    rcases hmem with hi' | rfl | hi'
    · exact absurd hi' hi
    · exact le_rfl
    · exact (List.pairwise_cons.1 hafter).1 i hi'
  · rw [List.length_take]
    omega

/-- Of the first `N` numbers those below `K` are the first `K`, or all. -/
theorem length_filter_lt (N K : ℕ) :
    ((List.range N).filter fun k => decide (k < K)).length = min K N := by
  induction N with
  | zero => simp
  | succ N ih =>
    rw [List.range_succ, List.filter_append, List.length_append, ih]
    by_cases hlt : N < K
    · simp [hlt]
      omega
    · simp [hlt]
      omega

/-- The starting intercept is the response at position `⌊tau * n⌋`. -/
theorem position_eq_floor (hn : 0 < n) (hpos : 0 ≤ tau) (hlt : tau < 1) :
    position n tau = ⌊tau * n⌋₊ := by
  have hcast : (0 : ℚ) < n := Nat.cast_pos.2 hn
  have hproduct : 0 ≤ tau * n := mul_nonneg hpos hcast.le
  -- So the last position is not cut off.
  have hfloor : ⌊tau * n⌋₊ < n := by
    rw [Nat.floor_lt hproduct]
    exact mul_lt_of_lt_one_left hcast hlt
  have hle (k : ℕ) : ((k + 1 : ℕ) : ℚ) ≤ tau * n ↔ k < ⌊tau * n⌋₊ :=
    (Nat.le_floor_iff hproduct).symm
  have hfilter := length_filter_lt (n - 1) ⌊tau * n⌋₊
  unfold position
  simp only [hle]
  omega

/-! ## Prices -/

/-- What the residuals are worth: the parts below the fit `tau - 1` and the others `tau`, which row
    `a` brings into balance. -/
def price (tau : ℚ) (before : List (Fin n)) (a i : Fin n) : ℚ :=
  tau - tally before i + if i = a then before.length - tau * n else 0

/-- The prices are balanced. -/
theorem sum_price {before : List (Fin n)} (hnodup : before.Nodup) (a : Fin n) :
    ∑ i, price tau before a i = 0 := by
  unfold price
  -- Each observation before counts once, and the correction takes the sum back.
  rw [Finset.sum_add_distrib, Finset.sum_sub_distrib, sum_tally hnodup,
    Finset.sum_ite_eq' Finset.univ a]
  simp only [Finset.sum_const, Finset.card_univ, Fintype.card_fin, nsmul_eq_mul, Finset.mem_univ,
    ↓reduceIte]
  ring

/-- Below the fit the price is that of the negative part. -/
theorem price_of_mem {before : List (Fin n)} {a i : Fin n} (hi : i ∈ before) (ha : i ≠ a) :
    price tau before a i = -(1 - tau) := by
  rw [price, tally_of_mem hi, if_neg ha]
  ring

/-- Above the fit it is that of the positive part. -/
theorem price_of_notMem {before : List (Fin n)} {a i : Fin n} (hi : i ∉ before) (ha : i ≠ a) :
    price tau before a i = tau := by
  rw [price, tally_of_notMem hi, if_neg ha]
  ring

/-- With as many observations below the fit as the level demands, row `a` has a price between those
    of the parts. -/
theorem price_mem {before : List (Fin n)} {a : Fin n} (ha : a ∉ before) (hpos : 0 ≤ tau)
    (hlength : before.length = ⌊tau * n⌋₊) : price tau before a a ∈ Set.Icc (-(1 - tau)) tau := by
  have hproduct : 0 ≤ tau * n := mul_nonneg hpos n.cast_nonneg
  -- The level lies between two counts of observations that differ by one.
  have hfloor : (⌊tau * n⌋₊ : ℚ) ≤ tau * n := Nat.floor_le hproduct
  have hceil : tau * n < ⌊tau * n⌋₊ + 1 := Nat.lt_floor_add_one _
  rw [price, tally_of_notMem ha, if_pos rfl, hlength]
  constructor <;> linarith

/-! ## With an intercept -/

/-- The observations that lie below the fit. -/
def before (y : Vector ℚ n) (tau : ℚ) : List (Fin n) :=
  (order y).take (position n tau)

/-- The observation at the position holds the intercept, and the others the parts on their side. -/
theorem start_apply {y : Vector ℚ n} {a : Fin n} (ha : (order y)[position n tau]? = some a) (d : ℕ)
    (i : Fin n) : (start d y tau true)[i] =
      if a = i then interceptColumn n d (decide ¬ 0 ≤ y[i])
      else if i ∈ before y tau then below d true i else above d true i := by
  have hentry : (start d y tau true)[i] =
      if (order y)[position n tau]? = some i then interceptColumn n d (decide ¬ 0 ≤ y[i])
      else if (before y tau).contains i then below d true i else above d true i :=
    Vector.getElem_ofFn _
  simp only [hentry, ha, Option.some.injEq, List.contains_iff_mem]

/-- Rows other than that of the observation fitted hold the part of their residual that is not
    zero. -/
theorem Divides.rowHolds {y : Vector ℚ n} {a i : Fin n} (h : Divides y (before y tau) a)
    (ha : (order y)[position n tau]? = some a) (d : ℕ) (hi : i ≠ a) :
    RowHolds tau (1 - tau) a i (start d y tau true)[i] (y[i] - y[a])
      (price tau (before y tau) a i) := by
  rw [start_apply ha, if_neg (Ne.symm hi)]
  by_cases hmem : i ∈ before y tau
  · rw [if_pos hmem, price_of_mem hmem hi]
    exact .below rfl (sub_nonpos.2 (h.le i hmem)) rfl
  · rw [if_neg hmem, price_of_notMem hmem hi]
    exact .above rfl (sub_nonneg.2 (h.ge i hmem)) rfl

/-- With an intercept the basis fits the response at the position. -/
theorem exists_flatStart_true (D : Design ℚ n d) (hn : 0 < n) (hpos : 0 ≤ tau) (hlt : tau < 1) :
    ∃ a v, D.response.toList.mergeSort[⌊tau * n⌋₊]? = some D.response[a] ∧
      FlatStart (start d D.response tau true) (ones n).signSplit D.response tau (1 - tau) a
        (split fun _ : Fin 1 => D.response[a]) v := by
  have hposition := position_eq_floor hn hpos hlt
  -- The position is the number of those below the level, cut off at the last one.
  have hk : position n tau < n := by
    have hle := List.length_filter_le (fun k => decide (((k + 1 : ℕ) : ℚ) ≤ tau * n))
      (List.range (n - 1))
    rw [List.length_range] at hle
    unfold position
    omega
  obtain ⟨a, ha, hdivides, hlength⟩ := exists_divides D.response hk
  -- The row of the observation at the position holds the intercept.
  have hanchor : (start d D.response tau true)[a] =
      interceptColumn n d (decide ¬ 0 ≤ D.response[a]) := by
    rw [start_apply ha, if_pos rfl]
  have hsign : if (decide ¬ 0 ≤ D.response[a]) = true then D.response[a] ≤ 0
      else 0 ≤ D.response[a] := by
    by_cases hsign : 0 ≤ D.response[a]
    · simp only [hsign, not_true_eq_false, decide_false, Bool.false_eq_true, ↓reduceIte]
    · simp only [hsign, not_false_eq_true, decide_true, ↓reduceIte]
      exact (not_le.1 hsign).le
  -- The response at the position is fitted exactly.
  have hexact : D.response[a] = (ones n).toMatrix a 0 * D.response[a] := by
    rw [ones_apply, one_mul]
  have hprice := price_mem hdivides.notMem hpos (hlength.trans hposition)
  -- Every observation counts once in the balance.
  have hbalanced : ∑ i, price tau (before D.response tau) a i * (ones n).toMatrix i 0 = 0 := by
    simp only [ones_apply, mul_one]
    exact sum_price hdivides.nodup a
  have hrow (i : Fin n) (hi : i ≠ a) :
      RowHolds tau (1 - tau) a i (start d D.response tau true)[i]
        (D.response[i] - (ones n).toMatrix i 0 * D.response[a])
        (price tau (before D.response tau) a i) := by
    rw [ones_apply, one_mul]
    exact hdivides.rowHolds ha d hi
  refine ⟨a, _, ?_, FlatStart.of_signSplit hanchor hsign hexact hprice hbalanced hrow⟩
  rw [← hposition, ← map_order, List.getElem?_map, ha]
  rfl

/-! ## The start -/

/-- The basis fits an intercept alone, the response at position `⌊tau * n⌋`, or nothing. -/
theorem exists_flatStart (D : Design ℚ n d) (intercept : Bool) (hn : 0 < n) (hpos : 0 ≤ tau)
    (hlt : tau < 1) : ∃ a q v, FlatStart (start d D.response tau intercept)
      (interceptBlock n intercept) D.response tau (1 - tau) a q v ∧
        readIntercept intercept q =
          if intercept then D.response.toList.mergeSort[⌊tau * n⌋₊]? else none := by
  cases intercept with
  | true =>
    obtain ⟨a, v, hb, hflat⟩ := exists_flatStart_true D hn hpos hlt
    refine ⟨a, _, v, hflat, ?_⟩
    rw [if_pos rfl, hb]
    exact readIntercept_writeIntercept (some D.response[a])
  | false => exact ⟨⟨0, hn⟩, _, _, flatStart_false D tau ⟨0, hn⟩, rfl⟩

/-- The columns of the intercept hold units. -/
theorem abs_interceptBlock (intercept : Bool) (i : Fin n) (j : Fin (interceptWidth intercept)) :
    |(interceptBlock n intercept).toMatrix i j| = 1 := by
  cases intercept with
  | true =>
    apply abs_signSplit (W := ones n)
    intro k
    rw [ones_apply, abs_one]
  | false => exact nomatch j

/-- They are not too large for the condition number. -/
theorem sum_abs_interceptBlock {intercept : Bool} (hsize : intercept = true → n ≤ 10 ^ 6)
    (j : Fin (interceptWidth intercept)) :
    ∑ i, |(interceptBlock n intercept).toMatrix i j| ≤ 10 ^ 6 := by
  cases intercept with
  | true => exact sum_abs_le_of_units (abs_interceptBlock true) (hsize rfl) j
  | false => exact nomatch j

/-- At every level strictly between zero and one quantile regression has a program. -/
theorem exists_reduction (D : Design ℚ n d) (intercept : Bool) (hn : 0 < n) (hpos : 0 < tau)
    (hlt : tau < 1) : ∃ r, reduction D tau intercept = .ok r := by
  obtain ⟨a, q, v, hflat, -⟩ := exists_flatStart D intercept hn hpos.le hlt
  have hwidth : n ≤ d + d + interceptWidth intercept + (n + n) := by omega
  -- Distinct columns and enough of them make a problem.
  obtain ⟨p, hp⟩ := Instance.exists_ofParts?_eq_ok (matrix D.matrix intercept) (.fixed D.response)
    (cost n d tau intercept) hn hwidth (hflat.basis_injective (abs_interceptBlock intercept))
  exact ⟨_, reduction_eq_ok_iff.2 ⟨⟨hpos, hlt⟩, p, hp, rfl⟩⟩

/-- The program starts from the basis that was put together for it. -/
theorem basis_eq {r : Reduction ℚ n (width n d intercept)}
    (h : reduction D tau intercept = .ok r) :
    r.inst.basis = start d D.response tau intercept := by
  obtain ⟨-, p, hp, rfl⟩ := reduction_eq_ok_iff.1 h
  exact (Instance.ofParts?_eq_ok_iff.1 hp).2.2.2.2

/-- The program has an optimal start that no tolerance refuses, with multipliers between `tau - 1`
    and `tau`. -/
theorem exists_startsOptimal (D : Design ℚ n d) (intercept : Bool) (hn : 0 < n) (hpos : 0 < tau)
    (hlt : tau < 1) (hsize : intercept = true → n ≤ 10 ^ 6) :
    ∃ r t, reduction D tau intercept = .ok r ∧ r.inst.StartsOptimal t ∧
      ∀ lam, ∀ i : Fin n, (t.dual lam)[i] ∈ Set.Icc (tau - 1) tau := by
  obtain ⟨r, hr⟩ := exists_reduction D intercept hn hpos hlt
  obtain ⟨a, q, v, hflat, -⟩ := exists_flatStart D intercept hn hpos.le hlt
  rw [← basis_eq hr] at hflat
  obtain ⟨t, ht, hdual⟩ := (splitsResiduals hr).exists_startsOptimal hflat
    (abs_interceptBlock intercept) (sum_abs_interceptBlock hsize) hpos.le (sub_nonneg.2 hlt.le)
  rw [neg_sub] at hdual
  exact ⟨r, t, hr, ht, hdual⟩

end ParametricLP.Quantile
