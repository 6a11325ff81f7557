import Mathlib.Algebra.Field.Basic
import Mathlib.Algebra.Ring.Int.Defs
import RockAMali.CImg

/-!
`CDataGenerator_Peak` of `CDataGenerator_PAC.hpp`: three fills of a frame, each
of which begins at the last sample of the one before. The conversion to the
sample type and the exponential are parameters.
-/

namespace RockAMali

structure CDataGeneratorPeak (K : Type*) where
  nbTB : Int
  nbTA : Int
  tau : K
  A : Int
  B : Int

namespace CDataGeneratorPeak

variable {K S : Type*} [Field K]

def peak (exp : K → K) (convert : K → S) (generator : CDataGeneratorPeak K) (image : CImg S) :
    Option (CImg S) := do
  let ⟨nbTB, nbTA, tau, A, B⟩ := generator
  -- baseline
  let image ← cimgForInX image.width 0 nbTB (fun i image => image.write i (convert B)) image
  -- peak
  let step : K := A / (nbTA - nbTB : Int)
  let (_, image) ← cimgForInX image.width nbTB nbTA (fun i (j, image) => do
    some (j + 1, ← image.write i (convert (step * j + B)))) ((0 : Int), image)
  -- exponential decrease
  let (_, image) ← cimgForInX image.width nbTA image.width (fun i (t, image) => do
    some (t + 1, ← image.write i (convert (A * exp (-t / tau) + B)))) ((0 : Int), image)
  some image

end CDataGeneratorPeak

namespace CDataGeneratorPeak

variable {K S : Type*} [Field K]

def pulse (exp : K → K) (b a : Nat) (tau : K) (A B : Int) (n : Nat) : K :=
  if n < b then B
  else if n < a then A / (a - b : Int) * (n - b : Nat) + B
  else A * exp (-(n - a : Nat) / tau) + B

/-- The three parts as the loops count them, from the first sample of the frame
where a part begins before it. -/
def visited (exp : K → K) (b a : Int) (tau : K) (A B : Int) (n : Nat) : K :=
  if n < b then B
  else if n < a then A / (a - b : Int) * (n - b.toNat : Nat) + B
  else A * exp (-(n - a.toNat : Nat) / tau) + B

theorem peak_visited (exp : K → K) (convert : K → S) {b a : Int} (order : b < a) (tau : K)
    (A B : Int) (image : CImg S) :
    ∃ filled, peak exp convert ⟨b, a, tau, A, B⟩ image = some filled ∧
      filled.width = image.width ∧
      ∀ n < image.width, filled.data n = convert (visited exp b a tau A B n) := by
  obtain ⟨base, baseRan, baseWidth, baseline⟩ : ∃ base,
      cimgForInX image.width 0 b (fun i (image : CImg S) => image.write i (convert (B : K))) image =
        some base ∧ base.width = image.width ∧ ∀ n < image.width, base.data n =
          if (0 : Int) ≤ n ∧ n ≤ b then convert (B : K) else image.data n := by
    apply cimgForInX_fill_int image id (fun _ _ => True) (fun _ => convert (B : K)) 0 b trivial
    intro n current _ _ inside _
    exact ⟨_, CImg.write_of_lt inside _, trivial, rfl⟩
  obtain ⟨⟨risen, rise⟩, riseRan, riseWidth, rising⟩ := cimgForInX_count base b a fun j =>
    convert ((A : K) / (a - b : Int) * j + B)
  obtain ⟨⟨decayed, decay⟩, decayRan, decayWidth, decaying⟩ :=
    cimgForInX_count rise a rise.width fun t => convert (A * exp (-t / tau) + B)
  refine ⟨decay, ?_, by rw [decayWidth, riseWidth, baseWidth], ?_⟩
  · simp only [peak, baseRan, Option.bind_eq_bind, Option.bind_some]
    simp only [Option.bind_eq_bind] at riseRan decayRan
    rw [riseRan, Option.bind_some, decayRan, Option.bind_some]
  · intro n inside
    simp only at riseWidth rising decaying
    rw [decaying n (by omega), rising n (by omega), baseline n inside, visited]
    by_cases early : (n : Int) < b
    · rw [if_neg (by omega), if_neg (by omega), if_pos (by omega), if_pos early]
    · by_cases between : (n : Int) < a
      · rw [if_neg (by omega), if_pos (by omega), if_neg early, if_pos between]
        push_cast
        rfl
      · rw [if_pos (by omega), if_neg early, if_neg between]
        push_cast
        rfl

theorem visited_natCast (exp : K → K) (b a : Nat) (tau : K) (A B : Int) (n : Nat) :
    visited exp b a tau A B n = pulse exp b a tau A B n := by
  simp only [visited, pulse, Int.ofNat_lt, Int.toNat_natCast]

theorem peak_spec (exp : K → K) (convert : K → S) {b a : Nat} (order : b < a) (tau : K) (A B : Int)
    (image : CImg S) :
    ∃ filled, peak exp convert ⟨b, a, tau, A, B⟩ image = some filled ∧
      filled.width = image.width ∧
      ∀ n < image.width, filled.data n = convert (pulse exp b a tau A B n) := by
  obtain ⟨filled, ran, width, values⟩ :=
    peak_visited exp convert (Int.ofNat_lt.mpr order) tau A B image
  refine ⟨filled, ran, width, ?_⟩
  intro n inside
  rw [values n inside, visited_natCast]

end CDataGeneratorPeak

end RockAMali
