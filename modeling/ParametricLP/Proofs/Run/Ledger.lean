import Mathlib
import ParametricLP.Proofs.Rounding

/-!
# The ledger of a run

A run takes marks at decreasing `lam` and makes pivots at the last mark taken. Every mark allows for
the same number of pivots, and none of them may be kept for later. So each pivot is paid for by the
mark that it is made at, and there are no more of them than the marks together allow for.

## Key results

- `Ledger.length_add_le`: all pivots together
- `Ledger.levelCount_le`: the pivots at any one `lam`
- `Ledger.levelCount_add_eq`: those at the last mark, and what is left there
-/

namespace ParametricLP

variable {α : Type} [Scalar α]

/-- Marks and pivots, by their `lam`, as a run makes them: every mark lies below the ones before and
    allows for `cap + 1` pivots, of which `left` have not been made yet at the last one. -/
inductive Ledger (cap : ℕ) : ℕ → List α → List α → Prop where
  | start : Ledger cap 0 [] []
  | mark {left marks pivots lam} (h : Ledger cap left marks pivots)
      (hbelow : ∀ last ∈ marks.getLast?, lam < last) :
      Ledger cap (cap + 1) (marks ++ [lam]) pivots
  | pivot {left marks pivots last lam} (h : Ledger cap (left + 1) marks pivots)
      (hlast : marks.getLast? = some last) (hlevel : Scalar.Level lam last) :
      Ledger cap left marks (pivots ++ [lam])

/-- How many numbers of a list are level with `lam`. -/
def levelCount (lam : α) (lams : List α) : ℕ :=
  lams.countP fun x => decide (Scalar.Level x lam)

/-- One more number counts if it is level with the one counted. -/
theorem levelCount_concat (lam x : α) (lams : List α) :
    levelCount lam (lams ++ [x]) = levelCount lam lams + if Scalar.Level x lam then 1 else 0 := by
  unfold levelCount
  rw [List.countP_append, List.countP_singleton]
  simp only [decide_eq_true_eq]

namespace Ledger

variable {cap left : ℕ} {marks pivots : List α} {lam last : α}

/-- What is left at the last mark has been paid for as well. -/
theorem length_add_le (h : Ledger cap left marks pivots) :
    pivots.length + left ≤ (cap + 1) * marks.length := by
  induction h with
  | start => exact Nat.zero_le _
  | mark _ _ ih =>
    -- A new mark pays for `cap + 1` more pivots.
    rw [List.length_append, List.length_singleton, Nat.mul_succ]
    omega
  | pivot _ _ _ ih =>
    rw [List.length_append, List.length_singleton]
    omega

variable [Scalar.OrdersNumbers α]

open Scalar.RoundsInOrder

/-- Level numbers are counted alike. -/
theorem levelCount_congr {lams : List α} (h : Scalar.Level lam last) :
    levelCount lam lams = levelCount last lams := by
  unfold levelCount
  simp only [h.iff_right]

/-- The marks decrease. -/
theorem pairwise (h : Ledger cap left marks pivots) : marks.Pairwise fun a b => b < a := by
  induction h with
  | start => exact .nil
  | @mark _ marks _ lam _ hbelow ih =>
    refine List.pairwise_append.2 ⟨ih, List.pairwise_singleton _ _, fun a ha b hb => ?_⟩
    rw [List.mem_singleton.1 hb]
    -- Either `a` is the last mark itself, or the last mark lies below it.
    obtain ⟨last, hlast⟩ := Option.ne_none_iff_exists'.1
      (mt List.getLast?_eq_none_iff.1 (List.ne_nil_of_mem ha))
    have hlt := hbelow last hlast
    obtain ⟨rest, rfl⟩ := List.getLast?_eq_some_iff.1 hlast
    rcases List.mem_append.1 ha with ha | ha
    · have hpast := (List.pairwise_append.1 ih).2.2 a ha last (List.mem_singleton_self last)
      exact lt_of_lt_of_le hlt (le_of_lt hpast)
    · rwa [List.mem_singleton.1 ha]
  | pivot _ _ _ ih => exact ih

/-- No pivot has been made below the last mark. -/
theorem exists_last_le (h : Ledger cap left marks pivots) (hlam : lam ∈ pivots) :
    ∃ last, marks.getLast? = some last ∧ last ≤ lam := by
  induction h with
  | start => exact absurd hlam List.not_mem_nil
  | mark _ hbelow ih =>
    -- The new mark lies below the one that the pivot was made at.
    obtain ⟨last, hlast, hle⟩ := ih hlam
    exact ⟨_, List.getLast?_concat, le_trans (le_of_lt (hbelow last hlast)) hle⟩
  | pivot _ hlast hlevel ih =>
    rcases List.mem_append.1 hlam with hlam | hlam
    · exact ih hlam
    · rw [List.mem_singleton.1 hlam]
      exact ⟨_, hlast, hlevel.2⟩

/-- The pivots at the last mark and those left there are the ones that it allows for. -/
theorem levelCount_add_eq (h : Ledger cap left marks pivots) (hlast : marks.getLast? = some last) :
    levelCount last pivots + left = cap + 1 := by
  induction h with
  | start => exact nomatch hlast
  | @mark _ _ pivots lam h hbelow _ =>
    obtain rfl : lam = last := Option.some.inj (List.getLast?_concat.symm.trans hlast)
    -- All pivots so far were made above the new mark.
    have hnone : levelCount lam pivots = 0 := by
      refine List.countP_eq_zero.2 fun x hx hlevel => ?_
      obtain ⟨above, habove, hle⟩ := h.exists_last_le hx
      have hlt := lt_of_lt_of_le (hbelow above habove) hle
      exact Scalar.not_le_of_lt hlt (of_decide_eq_true hlevel).1
    rw [hnone, Nat.zero_add]
  | pivot _ hlast' hlevel ih =>
    -- One pivot more has been made, and one less is left.
    obtain rfl := Option.some.inj (hlast'.symm.trans hlast)
    rw [levelCount_concat, if_pos hlevel, ← ih hlast]
    omega

/-- No more pivots are made at any one `lam` than a mark allows for. -/
theorem levelCount_le (h : Ledger cap left marks pivots) (lam : α) :
    levelCount lam pivots ≤ cap + 1 := by
  induction h with
  | start => exact Nat.zero_le _
  | mark _ _ ih => exact ih
  | @pivot left _ pivots last x h hlast hlevel ih =>
    rw [levelCount_concat]
    split
    · next hx =>
      -- The new pivot is at the last mark, where the count is known.
      have hcount := h.levelCount_add_eq hlast
      rw [levelCount_congr (hx.symm.trans hlevel)]
      omega
    · exact ih

end Ledger

end ParametricLP
