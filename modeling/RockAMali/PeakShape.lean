import Mathlib.Analysis.SpecialFunctions.Exp
import RockAMali.PeakGenerator

/-!
The shape the pulse generator documents, at any position of the pulse relative
to the frame. The loops count a ramp and a decay from the first sample they
visit, which is the first of the part only where the part begins in the frame.
-/

namespace RockAMali

namespace CDataGeneratorPeak

noncomputable section

def documented (b a : Int) (tau : ℝ) (A B : Int) (n : Nat) : ℝ :=
  if n < b then B
  else if n < a then A * (n - b) / (a - b) + B
  else A * Real.exp (-(n - a) / tau) + B

variable {b a : Int} {tau : ℝ} {A B : Int}

theorem visited_of_inside (inside : 0 ≤ b) (order : b < a) (n : Nat) :
    visited Real.exp b a tau A B n = documented b a tau A B n := by
  obtain ⟨first, rfl⟩ := Int.eq_ofNat_of_zero_le inside
  obtain ⟨top, rfl⟩ := Int.eq_ofNat_of_zero_le (by omega : 0 ≤ a)
  simp only [visited, documented, Int.toNat_natCast]
  split
  · rfl
  · rename_i risen
    split
    · push_cast [Nat.cast_sub (by omega : first ≤ n)]
      ring
    · push_cast [Nat.cast_sub (by omega : top ≤ n)]
      rfl

theorem visited_of_decay (order : b < 0) (n : Nat) :
    visited Real.exp b 0 tau A B n = documented b 0 tau A B n := by
  simp only [visited, documented]
  rw [if_neg (by omega), if_neg (by omega), if_neg (by omega), if_neg (by omega)]
  simp

theorem visited_flat (n : Nat) :
    visited Real.exp b a tau 0 B n = documented b a tau 0 B n := by
  simp [visited, documented]

theorem visited_zero_ne (early : b < 0) (top : a ≠ 0) (order : b < a) (decay : 0 < tau)
    (peaked : A ≠ 0) : visited Real.exp b a tau A B 0 ≠ documented b a tau A B 0 := by
  have amplitude : (A : ℝ) ≠ 0 := Int.cast_ne_zero.mpr peaked
  have begun : ¬ ((0 : Nat) : Int) < b := by omega
  simp only [visited, documented, if_neg begun]
  by_cases rising : ((0 : Nat) : Int) < a
  · have start : (b : ℝ) ≠ 0 := Int.cast_ne_zero.mpr (by omega)
    have span : (a - b : ℝ) ≠ 0 := by
      rw [← Int.cast_sub]
      exact Int.cast_ne_zero.mpr (by omega)
    simp only [if_pos rising]
    simp [amplitude, start, span]
  · simp only [if_neg rising]
    simp [amplitude, top, decay.ne']

theorem visited_documented_iff (order : b < a) (decay : 0 < tau) (width : Nat) :
    (∀ n < width, visited Real.exp b a tau A B n = documented b a tau A B n) ↔
      0 ≤ b ∨ a = 0 ∨ A = 0 ∨ width = 0 := by
  constructor
  · intro shaped
    by_contra outside
    simp only [not_or] at outside
    obtain ⟨early, top, peaked, samples⟩ := outside
    exact visited_zero_ne (by omega) top order decay peaked (shaped 0 (by omega))
  · rintro (inside | rfl | rfl | rfl) n sample
    · exact visited_of_inside inside order n
    · exact visited_of_decay order n
    · exact visited_flat n
    · omega

theorem peak_visited_iff (order : b < a) (width : Nat) :
    (∀ (S : Type) (convert : ℝ → S) (image : CImg S), image.width = width →
      ∃ filled, peak Real.exp convert ⟨b, a, tau, A, B⟩ image = some filled ∧
        filled.width = width ∧
        ∀ n < width, filled.data n = convert (documented b a tau A B n)) ↔
      ∀ n < width, visited Real.exp b a tau A B n = documented b a tau A B n := by
  constructor
  · intro shaped n inside
    obtain ⟨filled, ran, -, documents⟩ := shaped ℝ id ⟨width, fun _ => 0⟩ rfl
    obtain ⟨visits, ranToo, -, values⟩ :=
      peak_visited Real.exp id order tau A B ⟨width, fun _ => 0⟩
    obtain rfl : filled = visits := Option.some.inj (ran.symm.trans ranToo)
    exact (values n inside).symm.trans (documents n inside)
  · rintro shaped S convert image rfl
    obtain ⟨filled, ran, width, values⟩ := peak_visited Real.exp convert order tau A B image
    refine ⟨filled, ran, width, ?_⟩
    intro n inside
    rw [values n inside, shaped n inside]

/-- A pulse has the documented shape in every frame of a width exactly where it
begins in the frame, or its decay begins with the frame, or there is nothing to see. -/
theorem peak_documented_iff (order : b < a) (decay : 0 < tau) (width : Nat) :
    (∀ (S : Type) (convert : ℝ → S) (image : CImg S), image.width = width →
      ∃ filled, peak Real.exp convert ⟨b, a, tau, A, B⟩ image = some filled ∧
        filled.width = width ∧
        ∀ n < width, filled.data n = convert (documented b a tau A B n)) ↔
      0 ≤ b ∨ a = 0 ∨ A = 0 ∨ width = 0 :=
  (peak_visited_iff order width).trans (visited_documented_iff order decay width)

theorem peak_documented_inside :
    ∃ filled, peak Real.exp id ⟨77, 87, 500, 2345, 23⟩ ⟨1000, fun _ => 0⟩ = some filled ∧
      filled.width = 1000 ∧
      ∀ n < 1000, filled.data n = documented 77 87 500 2345 23 n :=
  (peak_documented_iff (by omega) (by norm_num) 1000).mpr (Or.inl (by omega)) ℝ id
    ⟨1000, fun _ => 0⟩ rfl

/-- A baseline of 100 with a jitter of 123 may be drawn as -23. -/
theorem peak_documented_fails :
    ¬ ∀ (S : Type) (convert : ℝ → S) (image : CImg S), image.width = 1000 →
      ∃ filled, peak Real.exp convert ⟨-23, -13, 500, 2345, 23⟩ image = some filled ∧
        filled.width = 1000 ∧
        ∀ n < 1000, filled.data n = convert (documented (-23) (-13) 500 2345 23 n) := by
  intro shaped
  have same := (peak_visited_iff (by omega) 1000).mp shaped
  exact visited_zero_ne (by omega) (by omega) (by omega) (by norm_num) (by omega)
    (same 0 (by omega))

end

end CDataGeneratorPeak

end RockAMali
