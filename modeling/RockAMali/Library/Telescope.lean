import Mathlib.Algebra.BigOperators.Intervals
import Mathlib.Algebra.Order.BigOperators.Group.Finset
import Mathlib.Algebra.Order.Group.Abs
import Mathlib.Tactic.Abel

/-!
Sequences given by their differences: sums over a sliding window, and the two
sums that undo a second difference.
-/

namespace Telescope

variable {G : Type*} [AddCommGroup G]

def window (d : Nat → G) (k j : Nat) : G := ∑ i ∈ Finset.Ico (j - k) j, d i

theorem window_step (d : Nat → G) {k j : Nat} (room : k < j) :
    window d k j = window d k (j - 1) + d (j - 1) - d (j - (k + 1)) := by
  obtain ⟨i, rfl⟩ : ∃ i, j = k + i + 1 := ⟨j - k - 1, by omega⟩
  have lower : k + i + 1 - k = i + 1 := by omega
  have oldLower : k + i + 1 - 1 - k = i := by omega
  have dropped : k + i + 1 - (k + 1) = i := by omega
  have last : ∑ n ∈ Finset.Ico i (k + i + 1), d n = ∑ n ∈ Finset.Ico i (k + i), d n + d (k + i) :=
    Finset.sum_Ico_succ_top (by omega) d
  have first : ∑ n ∈ Finset.Ico i (k + i + 1), d n =
      d i + ∑ n ∈ Finset.Ico (i + 1) (k + i + 1), d n :=
    Finset.sum_eq_sum_Ico_succ_bot (by omega) d
  rw [window, window, lower, oldLower, dropped, Nat.add_sub_cancel, ← last, first]
  abel

variable {s V : Nat → G} {first width n : Nat}

theorem sum_of_difference
    (difference : ∀ n, first < n → n < width → s n - s (n - 1) = V n)
    (late : first ≤ n) (inside : n < width) :
    s n = s first + ∑ j ∈ Finset.Icc (first + 1) n, V j := by
  induction n, late using Nat.le_induction with
  | base => rw [Finset.Icc_eq_empty (by omega), Finset.sum_empty, add_zero]
  | succ n late ih =>
      have change := difference (n + 1) (by omega) inside
      rw [Nat.add_sub_cancel] at change
      rw [Finset.sum_Icc_succ_top (by omega), ← add_assoc, ← ih (by omega), ← change]
      abel

theorem sum_of_second_difference (level : s first = s (first - 1))
    (second : ∀ n, first < n → n < width →
      s n - s (n - 1) - (s (n - 1) - s (n - 2)) = V n - V (n - 1))
    (late : first ≤ n) (inside : n < width) :
    s n = s first + ∑ j ∈ Finset.Icc (first + 1) n, (V j - V first) := by
  have slope : ∀ n, first ≤ n → n < width → s n - s (n - 1) = V n - V first := by
    intro n late
    induction n, late using Nat.le_induction with
    | base =>
        intro _
        rw [level, sub_self, sub_self]
    | succ n late ih =>
        intro inside
        have change := second (n + 1) (by omega) inside
        rw [Nat.add_sub_cancel, (by omega : n + 1 - 2 = n - 1), ih (by omega)] at change
        rw [Nat.add_sub_cancel, ← sub_add_cancel (s (n + 1) - s n) (V n - V first), change]
        abel
  exact sum_of_difference (fun n after => slope n after.le) late inside

section Bounds

variable {G : Type*} [AddCommGroup G] [LinearOrder G] [IsOrderedAddMonoid G] {d s : Nat → G}
  {bound : G} {k j n : Nat}

theorem abs_window_le (nonneg : 0 ≤ bound) (small : ∀ i < j, |d i| ≤ bound) :
    |window d k j| ≤ k • bound := by
  calc |window d k j| ≤ ∑ i ∈ Finset.Ico (j - k) j, |d i| := Finset.abs_sum_le_sum_abs _ _
    _ ≤ ∑ i ∈ Finset.Ico (j - k) j, bound := by
        apply Finset.sum_le_sum
        intro i member
        exact small i (Finset.mem_Ico.mp member).2
    _ = (j - (j - k)) • bound := by rw [Finset.sum_const, Nat.card_Ico]
    _ ≤ k • bound := nsmul_le_nsmul_left nonneg (by omega)

theorem abs_sub_le_of_step (small : ∀ i, n ≤ i → i < n + j → |s (i + 1) - s i| ≤ bound) :
    |s (n + j) - s n| ≤ j • bound := by
  induction j with
  | zero => simp
  | succ j ih =>
      have last := small (n + j) (Nat.le_add_right n j) (by omega)
      have rest := ih fun i lower upper => small i lower (by omega)
      calc |s (n + (j + 1)) - s n| ≤ |s (n + j + 1) - s (n + j)| + |s (n + j) - s n| :=
            abs_sub_le _ _ _
        _ ≤ bound + j • bound := add_le_add last rest
        _ = (j + 1) • bound := by rw [succ_nsmul, add_comm]

end Bounds

end Telescope
