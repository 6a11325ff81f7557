import RockAMali.DataFilter
import RockAMali.Library.Telescope

/-!
The recursion of the trapezoidal filter against its direct definition: a second
difference that telescopes into sums of two windows of `k` samples.
-/

namespace RockAMali

open Telescope

variable {K : Type*} [CommRing K]

def slope (d : Nat → K) (k m j : Nat) : K := window d k j - window d k (j - k - m)

theorem slope_step (d : Nat → K) {k m n : Nat} (late : 2 * k + m + 2 ≤ n) :
    slope d k m n - slope d k m (n - 1) =
      d (n - 1) - d (n - (k + 1)) - d (n - (k + m + 1)) + d (n - (2 * k + m + 1)) := by
  have delayed := window_step d (by omega : k < n - k - m)
  rw [(by omega : n - k - m - 1 = n - (k + m + 1)),
    (by omega : n - k - m - (k + 1) = n - (2 * k + m + 1))] at delayed
  rw [slope, slope, window_step d (by omega : k < n), delayed,
    (by omega : n - 1 - k - m = n - (k + m + 1))]
  ring

variable {e s : Nat → K} {k m width n : Nat} {alp : K}

theorem Filtered.second_difference (filtered : Filtered e k m alp width s)
    (late : 2 * k + m + 1 < n) (inside : n < width) :
    s n - s (n - 1) - (s (n - 1) - s (n - 2)) =
      slope (discri alp e) k m n - slope (discri alp e) k m (n - 1) := by
  rw [slope_step _ late, filtered.step n inside late]
  ring

theorem Filtered.sum (filtered : Filtered e k m alp width s) (late : 2 * k + m + 1 ≤ n)
    (inside : n < width) :
    s n = e 0 + ∑ j ∈ Finset.Icc (2 * k + m + 2) n,
      (slope (discri alp e) k m j - slope (discri alp e) k m (2 * k + m + 1)) := by
  -- the blanked start leaves two equal samples before the first step
  have blank : s (2 * k + m + 1) = e 0 := filtered.start _ (by omega) (by omega)
  have level : s (2 * k + m + 1) = s (2 * k + m + 1 - 1) := by
    rw [blank, filtered.start (2 * k + m + 1 - 1) (by omega) (by omega)]
  rw [← blank]
  exact sum_of_second_difference level (fun n after => filtered.second_difference after) late inside

theorem trapezoidalFilter_windows (e s : CImg K) (positive : 0 < e.width)
    (same : s.width = e.width) (k m : Nat) (alp : K) :
    let W := window (discri alp e.data) k
    let D := 2 * k + m + 2
    ∃ filtered, trapezoidalFilter e s k m alp D = some filtered ∧
      filtered.width = e.width ∧
      (∀ n < e.width, n < D → filtered.data n = e.data 0) ∧
      ∀ n < e.width, D ≤ n → filtered.data n =
        e.data 0 + ∑ j ∈ Finset.Icc D n, (W j - W (j - k - m) - W (D - 1) + W (D - 1 - k - m)) := by
  intro W D
  obtain ⟨filtered, ran, width, samples⟩ := trapezoidalFilter_spec positive same k m alp
  refine ⟨filtered, ran, width, samples.start, ?_⟩
  intro n inside late
  rw [samples.sum (Nat.le_of_succ_le late) inside]
  congr 1
  apply Finset.sum_congr rfl
  intro j _
  rw [slope, slope, (by omega : 2 * k + m + 1 = D - 1)]
  ring

theorem trapezoidalFilter_windows_square :
    let e : CImg Int := ⟨9, fun n => (n : Int) * n⟩
    let s : CImg Int := ⟨9, fun _ => 7⟩
    let W := window (discri 3 e.data) 2
    ∃ filtered, trapezoidalFilter e s (2 : Nat) (1 : Nat) 3 (2 * 2 + 1 + 2 : Nat) =
        some filtered ∧
      filtered.width = 9 ∧ (∀ n < 9, n < 7 → filtered.data n = e.data 0) ∧
      ∀ n < 9, 7 ≤ n → filtered.data n =
        e.data 0 + ∑ j ∈ Finset.Icc 7 n, (W j - W (j - 2 - 1) - W (7 - 1) + W (7 - 1 - 2 - 1)) :=
  trapezoidalFilter_windows (⟨9, fun n => (n : Int) * n⟩ : CImg Int) ⟨9, fun _ => 7⟩
    (Nat.succ_pos 8) rfl 2 1 3

end RockAMali
