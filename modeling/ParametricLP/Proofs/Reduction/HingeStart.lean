import Mathlib
import ParametricLP.Proofs.Reduction.Hinge
import ParametricLP.Proofs.Reduction.SplitStart

/-!
# The start of the support vector machine

The intercept is the label of the majority. Every observation of the minority then falls short of its
margin by two and has the price one; those of the majority lie on the margin, where any price between
zero and one will do. As many of them as there are in the minority have to be priced one for the
labels to balance. The first observation of the majority holds the intercept and has what is missing:
nothing if the others suffice, and one if they are one too few.

## Key results

- `length_majority`: the majority is at least one half
- `AreLabels.majorityLabel_eq`: its label, by counting
- `Leads.price_mem`, `Leads.sum_price`: the price of its first observation is in bounds, and all are
  balanced
- `exists_flatStart`: the basis fits an intercept alone
- `exists_startsOptimal`: a start that no tolerance refuses
-/

namespace ParametricLP.Hinge

open Matrix SplitResiduals

variable {n d : ℕ} {D : Design ℚ n d} {y : Vector ℚ n}

/-! ## The majority -/

/-- Labels are one and minus one. -/
theorem isLabel_iff (x : ℚ) : isLabel x = true ↔ x = 1 ∨ x = -1 := by
  simp only [isLabel, Bool.or_eq_true, Bool.and_eq_true, decide_eq_true_eq]
  rw [← le_antisymm_iff, ← le_antisymm_iff]

/-- Every entry is one of the two labels. -/
def AreLabels (y : Vector ℚ n) : Prop :=
  ∀ i : Fin n, y[i] = 1 ∨ y[i] = -1

/-- The check of the labels passes exactly where every response is one. -/
theorem all_isLabel_iff : y.all isLabel = true ↔ AreLabels y := by
  rw [Vector.all_eq_true]
  constructor
  · intro h i
    exact (isLabel_iff _).1 (h i i.isLt)
  · intro h i hi
    exact (isLabel_iff _).2 (h ⟨i, hi⟩)

/-- The label of a sign. -/
def labelOf (positive : Bool) : ℚ :=
  if positive then 1 else -1

/-- A label is its own inverse. -/
theorem labelOf_mul_self (positive : Bool) : labelOf positive * labelOf positive = 1 := by
  cases positive <;> norm_num [labelOf]

/-- The labels of the two signs are opposite. -/
theorem labelOf_not (positive : Bool) : labelOf (!positive) = -labelOf positive := by
  cases positive <;> norm_num [labelOf]

/-- A label is that of its sign. -/
theorem AreLabels.eq_labelOf (hy : AreLabels y) (i : Fin n) : y[i] = labelOf (isPositive y i) := by
  unfold isPositive labelOf
  rcases hy i with hi | hi
  · rw [hi]
    norm_num
  · rw [hi]
    norm_num

/-- The label of the majority. -/
def majorityLabel (y : Vector ℚ n) : ℚ :=
  labelOf (positiveMajority y)

/-- The majority's label is its own inverse. -/
theorem majorityLabel_mul_self (y : Vector ℚ n) : majorityLabel y * majorityLabel y = 1 :=
  labelOf_mul_self _

/-- The majority are the observations of its sign. -/
theorem mem_majority_iff {i : Fin n} : i ∈ majority y ↔ isPositive y i = positiveMajority y := by
  simp [majority]

/-- Observations of the majority have its label. -/
theorem AreLabels.eq_of_mem (hy : AreLabels y) {i : Fin n} (hi : i ∈ majority y) :
    y[i] = majorityLabel y := by
  rw [hy.eq_labelOf, mem_majority_iff.1 hi]
  rfl

/-- Observations outside the majority have the other label. -/
theorem AreLabels.eq_neg_of_notMem (hy : AreLabels y) {i : Fin n} (hi : i ∉ majority y) :
    y[i] = -majorityLabel y := by
  have hother : isPositive y i = !positiveMajority y := Bool.eq_not_of_ne (mt mem_majority_iff.2 hi)
  rw [hy.eq_labelOf, hother, labelOf_not]
  rfl

/-- An observation is listed once. -/
theorem nodup_majority (y : Vector ℚ n) : (majority y).Nodup :=
  (List.nodup_finRange n).filter _

/-- The vote compares the positive observations with the others. -/
theorem positiveMajority_eq (hy : AreLabels y) : positiveMajority y =
    decide ((List.finRange n).countP (fun i => !isPositive y i) ≤
      (List.finRange n).countP (isPositive y)) := by
  have hnegative : (fun i : Fin n => decide (y[i] < (0 : ℚ))) = fun i => !isPositive y i := by
    funext i
    unfold isPositive
    rcases hy i with hi | hi
    · rw [hi]
      norm_num
    · rw [hi]
      norm_num
  show decide ((List.finRange n).countP (fun i => decide (y[i] < (0 : ℚ))) ≤
    (List.finRange n).countP (isPositive y)) = _
  rw [hnegative]

/-- A label is given as often as there are observations of its sign. -/
theorem AreLabels.count_labelOf (hy : AreLabels y) (positive : Bool) :
    y.toList.count (labelOf positive) =
      (List.finRange n).countP fun i => isPositive y i == positive := by
  rw [← map_finRange_getElem, List.count_eq_countP, List.countP_map]
  refine List.countP_congr fun i _ => ?_
  rw [Function.comp_apply, beq_iff_eq, beq_iff_eq, hy.eq_labelOf]
  cases isPositive y i <;> cases positive <;> norm_num [labelOf]

/-- The majority has the label that is given no less often than the other, and one on a tie. -/
theorem AreLabels.majorityLabel_eq (hy : AreLabels y) : majorityLabel y =
    if y.toList.count (-1) ≤ y.toList.count 1 then 1 else -1 := by
  have hpositive := hy.count_labelOf true
  have hnegative := hy.count_labelOf false
  simp only [labelOf, Bool.false_eq_true, ↓reduceIte, beq_true, beq_false] at hpositive hnegative
  rw [majorityLabel, positiveMajority_eq hy, hpositive, hnegative]
  simp only [labelOf, decide_eq_true_eq]

/-- The majority is at least one half of all. -/
theorem length_majority (hy : AreLabels y) :
    (majority y).length ≤ n ∧ n ≤ (majority y).length + (majority y).length := by
  have hcount : n = (List.finRange n).countP (isPositive y) +
      (List.finRange n).countP fun i => !isPositive y i := by
    simpa using List.length_eq_countP_add_countP (isPositive y) (l := List.finRange n)
  have hlength : (majority y).length =
      (List.finRange n).countP fun i => isPositive y i == positiveMajority y :=
    List.countP_eq_length_filter.symm
  have hvote := positiveMajority_eq hy
  -- The vote says which of the two counts is the larger.
  cases hpositive : positiveMajority y with
  | true =>
    rw [hpositive, eq_comm, decide_eq_true_eq] at hvote
    have hsame : (majority y).length = (List.finRange n).countP (isPositive y) := by
      simpa only [hpositive, beq_true] using hlength
    omega
  | false =>
    rw [hpositive, eq_comm, decide_eq_false_iff_not] at hvote
    simp only [hpositive, beq_false] at hlength
    omega

/-- The observations of the majority that count as falling short, all without the first and as many
    as there are in the minority. -/
def losing (y : Vector ℚ n) : List (Fin n) :=
  ((majority y).drop 1).take (n - (majority y).length)

/-- Observation `a` is the first of the majority. -/
structure Leads (y : Vector ℚ n) (a : Fin n) : Prop where
  head_eq : (majority y).head? = some a
  mem : a ∈ majority y
  notMem : a ∉ losing y
  subset : ∀ i ∈ losing y, i ∈ majority y
  nodup : (losing y).Nodup
  length_eq : (losing y).length = min (n - (majority y).length) ((majority y).length - 1)

/-- Where there is an observation, the majority has a first one. -/
theorem exists_leads (hy : AreLabels y) (hn : 0 < n) : ∃ a, Leads y a := by
  have hlength := length_majority hy
  have hnodup := nodup_majority y
  cases hmajority : majority y with
  | nil =>
    -- An empty majority would be less than one half.
    rw [hmajority, List.length_nil] at hlength
    omega
  | cons a rest =>
    -- Those that lose are taken from the rest, which the first is not in.
    have hlosing : losing y = rest.take (n - (a :: rest).length) := by
      rw [losing, hmajority]
      rfl
    have hsubset : losing y ⊆ rest := by
      rw [hlosing]
      exact List.take_subset _ _
    rw [hmajority] at hnodup
    obtain ⟨hfirst, hrest⟩ := List.nodup_cons.1 hnodup
    refine ⟨a, ?_⟩
    constructor
    · rw [hmajority]
      rfl
    · rw [hmajority]
      exact List.mem_cons_self
    · exact fun hmem => hfirst (hsubset hmem)
    · intro i hi
      rw [hmajority]
      exact List.mem_cons_of_mem a (hsubset hi)
    · rw [hlosing]
      exact hrest.sublist (List.take_sublist _ _)
    · rw [hlosing, hmajority, List.length_take, List.length_cons]
      rfl

/-! ## Prices -/

/-- What falling short is worth: one outside the majority and for its losing part, nothing for the
    rest of the majority, and what brings the labels into balance for row `a`. -/
def price (y : Vector ℚ n) (a i : Fin n) : ℚ :=
  1 - tally (majority y) i + tally (losing y) i +
    if i = a then ((n - (majority y).length : ℕ) : ℚ) - (losing y).length else 0

namespace Leads

variable {a : Fin n}

/-- Over the labels the prices are balanced. -/
theorem sum_price (h : Leads y a) (hy : AreLabels y) : ∑ i : Fin n, price y a i * y[i] = 0 := by
  -- In units of the majority label the minority counts negatively.
  have hterm (i : Fin n) : price y a i * y[i] = majorityLabel y *
      (tally (majority y) i - 1 + tally (losing y) i +
        if i = a then ((n - (majority y).length : ℕ) : ℚ) - (losing y).length else 0) := by
    unfold price
    -- An observation of the majority has its label, and one outside it the other.
    by_cases hi : i ∈ majority y
    · rw [hy.eq_of_mem hi, tally_of_mem hi]
      ring
    · have ha : i ≠ a := fun heq => hi (heq ▸ h.mem)
      have hlosing : i ∉ losing y := fun hmem => hi (h.subset i hmem)
      rw [hy.eq_neg_of_notMem hi, tally_of_notMem hi, tally_of_notMem hlosing, if_neg ha]
      ring
  have hle := (length_majority hy).1
  simp only [hterm]
  rw [← Finset.mul_sum, Finset.sum_add_distrib, Finset.sum_add_distrib, Finset.sum_sub_distrib,
    sum_tally (nodup_majority y), sum_tally h.nodup, Finset.sum_ite_eq' Finset.univ a]
  simp only [Finset.sum_const, Finset.card_univ, Fintype.card_fin, nsmul_eq_mul, mul_one,
    Finset.mem_univ, ↓reduceIte, Nat.cast_sub hle]
  ring

/-- The first observation of the majority has a price between zero and one. -/
theorem price_mem (h : Leads y a) (hy : AreLabels y) : price y a a ∈ Set.Icc (-0) 1 := by
  obtain ⟨hle, hhalf⟩ := length_majority hy
  have hlosing := h.length_eq
  have hpos := List.length_pos_of_mem h.mem
  -- At most one observation of the majority is missing among those that lose.
  have hmissing : (losing y).length ≤ n - (majority y).length ∧
      n - (majority y).length ≤ (losing y).length + 1 := by omega
  have hlower : ((losing y).length : ℚ) ≤ (n - (majority y).length : ℕ) := Nat.cast_le.2 hmissing.1
  have hupper : ((n - (majority y).length : ℕ) : ℚ) ≤ (losing y).length + 1 := by
    exact_mod_cast hmissing.2
  rw [price, tally_of_mem h.mem, tally_of_notMem h.notMem, if_pos rfl]
  constructor <;> linarith

/-! ## The basis -/

/-- The first of the majority holds the intercept, and every other row a part of its residual. -/
theorem start_apply (h : Leads y a) (d : ℕ) (i : Fin n) : (start d y)[i] =
    if a = i then interceptColumn n d (!positiveMajority y)
    else if i ∉ majority y ∨ i ∈ losing y then lossColumn d i else surplusColumn d i := by
  simp [start, h.head_eq, losing]

/-- Rows other than the first of the majority hold the part of their residual that is not zero. -/
theorem rowHolds (h : Leads y a) (hy : AreLabels y) (d : ℕ) {i : Fin n} (hi : i ≠ a) :
    RowHolds 1 0 a i (start d y)[i] (1 - y[i] * majorityLabel y) (price y a i) := by
  have hsquare := majorityLabel_mul_self y
  rw [h.start_apply, if_neg (Ne.symm hi), price, if_neg hi, add_zero]
  by_cases hmem : i ∈ majority y
  · -- The observation lies on its margin.
    have hzero : 1 - y[i] * majorityLabel y = 0 := by rw [hy.eq_of_mem hmem, hsquare, sub_self]
    rw [hzero, tally_of_mem hmem, sub_self, zero_add]
    by_cases hloses : i ∈ losing y
    · rw [if_pos (.inr hloses)]
      exact .above rfl le_rfl (tally_of_mem hloses)
    · rw [if_neg (not_or.2 ⟨not_not.2 hmem, hloses⟩)]
      exact .below rfl le_rfl ((tally_of_notMem hloses).trans neg_zero.symm)
  · -- The observation falls short by two.
    have hloses : i ∉ losing y := fun hmem' => hmem (h.subset i hmem')
    have htwo : 0 ≤ 1 - y[i] * majorityLabel y := by
      rw [hy.eq_neg_of_notMem hmem, neg_mul, hsquare]
      norm_num
    rw [if_pos (.inl hmem), tally_of_notMem hmem, tally_of_notMem hloses, sub_zero, add_zero]
    exact .above rfl htwo rfl

end Leads

/-- The starting basis fits an intercept alone, the majority's label. -/
theorem exists_flatStart (D : Design ℚ n d) (hn : 0 < n) (hy : AreLabels D.response) :
    ∃ a v, FlatStart (start d D.response) (labels D).signSplit (Vector.replicate n 1) 1 0 a
      (split fun _ : Fin 1 => majorityLabel D.response) v := by
  obtain ⟨a, ha⟩ := exists_leads hy hn
  -- The side of the intercept that is held has the sign of the label.
  have hanchor : (start d D.response)[a] =
      interceptColumn n d (!positiveMajority D.response) := by
    rw [ha.start_apply, if_pos rfl]
  have hsign : if (!positiveMajority D.response) = true then majorityLabel D.response ≤ 0
      else 0 ≤ majorityLabel D.response := by
    unfold majorityLabel
    cases positiveMajority D.response <;> norm_num [labelOf]
  have hone (i : Fin n) : (Vector.replicate n (1 : ℚ))[i] = 1 := by
    simp
  -- On the first observation the label is met exactly.
  have hexact : (Vector.replicate n (1 : ℚ))[a] =
      (labels D).toMatrix a 0 * majorityLabel D.response := by
    rw [hone, labels_apply, hy.eq_of_mem ha.mem, majorityLabel_mul_self]
  have hbalanced : ∑ i, price D.response a i * (labels D).toMatrix i 0 = 0 := by
    simp only [labels_apply]
    exact ha.sum_price hy
  have hrow (i : Fin n) (hi : i ≠ a) : RowHolds 1 0 a i (start d D.response)[i]
      ((Vector.replicate n (1 : ℚ))[i] - (labels D).toMatrix i 0 * majorityLabel D.response)
      (price D.response a i) := by
    rw [hone, labels_apply]
    exact ha.rowHolds hy d hi
  exact ⟨a, _, FlatStart.of_signSplit hanchor hsign hexact (ha.price_mem hy) hbalanced hrow⟩

/-! ## The start -/

/-- The intercept counts with weight one for every observation. -/
theorem abs_labels (hy : AreLabels D.response) (i : Fin n) : |(labels D).toMatrix i 0| = 1 := by
  rw [labels_apply]
  rcases hy i with hi | hi
  · rw [hi, abs_one]
  · rw [hi, abs_neg, abs_one]

/-- For labels the support vector machine has a program. -/
theorem exists_reduction (D : Design ℚ n d) (hn : 0 < n) (hy : AreLabels D.response) :
    ∃ r, reduction D = .ok r := by
  -- Distinct columns and enough of them make a problem.
  obtain ⟨a, v, hflat⟩ := exists_flatStart D hn hy
  have hwidth : n ≤ d + d + (1 + 1) + (n + n) := by omega
  obtain ⟨p, hp⟩ := Instance.exists_ofParts?_eq_ok (matrix D) (.fixed (Vector.replicate n 1))
    (cost n d) hn hwidth (hflat.basis_injective (abs_signSplit (abs_labels hy)))
  exact ⟨_, reduction_eq_ok_iff.2 ⟨all_isLabel_iff.2 hy, p, hp, rfl⟩⟩

/-- The program starts from the basis that was put together for it. -/
theorem basis_eq {r : Reduction ℚ n (width n d)} (h : reduction D = .ok r) :
    r.inst.basis = start d D.response := by
  obtain ⟨-, p, hp, rfl⟩ := reduction_eq_ok_iff.1 h
  exact (Instance.ofParts?_eq_ok_iff.1 hp).2.2.2.2

/-- Up to a million observations the program has an optimal start that no tolerance refuses, with
    multipliers between zero and one. -/
theorem exists_startsOptimal (D : Design ℚ n d) (hn : 0 < n) (hy : AreLabels D.response)
    (hsize : n ≤ 10 ^ 6) : ∃ r t, reduction D = .ok r ∧ r.inst.StartsOptimal t ∧
      ∀ lam, ∀ i : Fin n, (t.dual lam)[i] ∈ Set.Icc 0 1 := by
  obtain ⟨r, hr⟩ := exists_reduction D hn hy
  obtain ⟨a, v, hflat⟩ := exists_flatStart D hn hy
  have hunit := abs_signSplit (abs_labels hy)
  rw [← basis_eq hr] at hflat
  obtain ⟨t, ht, hdual⟩ := (splitsResiduals hr).exists_startsOptimal hflat hunit
    (sum_abs_le_of_units hunit hsize) zero_le_one le_rfl
  rw [neg_zero] at hdual
  exact ⟨r, t, hr, ht, hdual⟩

end ParametricLP.Hinge
