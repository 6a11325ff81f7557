import Mathlib.Algebra.Order.Field.Basic
import RockAMali.FilterWindows
import RockAMali.Superposition

/-!
The energy of a pulse with the noise of `CData_Noise`. The recursion keeps the
slope that the noise of the first samples gives it, so that the deviation grows
with the distance of the two windows, and not with their position.
-/

namespace RockAMali

open Telescope

structure CDataNoise where
  randMin : ℚ
  randMax : ℚ

def CDataNoise.readParameters (rnd : ℚ) : CDataNoise := ⟨-(rnd / 2), rnd / 2⟩

/-- cimg_forX(images[n],i) images[n](i)+=Random(i), with the conversion to the type
of the samples. -/
def addNoise (convert : ℚ → ℚ) (random image : CImg ℚ) : Option (CImg ℚ) :=
  cimgForInX image.width 0 (image.width - 1) (fun i image => do
    image.write i (convert ((← image.read i) + (← random.read i)))) image

theorem addNoise_spec (convert : ℚ → ℚ) {random image : CImg ℚ}
    (same : random.width = image.width) :
    ∃ noisy, addNoise convert random image = some noisy ∧ noisy.width = image.width ∧
      ∀ n < image.width, noisy.data n = convert (image.data n + random.data n) := by
  have loop : ∃ noisy, addNoise convert random image = some noisy ∧
      (noisy.width = image.width ∧
        (∀ n < image.width, noisy.data n = convert (image.data n + random.data n)) ∧
        ∀ n, image.width ≤ n → noisy.data n = image.data n) := by
    apply cimgForInX_rule 0 image.width fun i (current : CImg ℚ) =>
      current.width = image.width ∧
        (∀ n < i, current.data n = convert (image.data n + random.data n)) ∧
        ∀ n, i ≤ n → current.data n = image.data n
    · rfl
    · split <;> omega
    · exact Nat.zero_le _
    · exact ⟨rfl, fun n before => absurd before (Nat.not_lt_zero n), fun _ _ => rfl⟩
    · intro i _ inside current held
      obtain ⟨width, done, left⟩ := held
      refine ⟨current.set i (convert (image.data i + random.data i)), ?_, width, ?_, ?_⟩
      · rw [CImg.read_of_lt (by omega), CImg.read_of_lt (by omega), left i le_rfl]
        exact CImg.write_of_lt (by omega) _
      · intro n before
        by_cases last : n = i
        · rw [last, CImg.set_data_self]
        · rw [CImg.set_data_of_ne last]
          exact done n (by omega)
      · intro n after
        rw [CImg.set_data_of_ne (by omega)]
        exact left n (by omega)
  obtain ⟨noisy, ran, width, samples, _⟩ := loop
  exact ⟨noisy, ran, width, samples⟩

section Filter

variable {noise t : Nat → ℚ} {k m width : Nat} {alp bound : ℚ}

theorem discri_small (small : ∀ n < width, |noise n| ≤ bound) {n : Nat} (inside : n < width) :
    |discri alp noise n| ≤ (1 + |alp|) * bound := by
  calc |discri alp noise n| ≤ |noise n| + |alp * noise (n - 1)| := abs_sub _ _
    _ = |noise n| + |alp| * |noise (n - 1)| := by rw [abs_mul]
    _ ≤ bound + |alp| * bound := by
        have last := small n inside
        have before := mul_le_mul_of_nonneg_left (small (n - 1) (by omega)) (abs_nonneg alp)
        exact add_le_add last before
    _ = (1 + |alp|) * bound := by ring

theorem slope_small {d : Nat → ℚ} (nonneg : 0 ≤ bound) {j : Nat}
    (small : ∀ n < j, |d n| ≤ bound) : |slope d k m j| ≤ 2 * (k * bound) := by
  have recent := abs_window_le (k := k) nonneg small
  have older : |window d k (j - k - m)| ≤ k • bound :=
    abs_window_le nonneg fun i before => small i (by omega)
  rw [nsmul_eq_mul] at recent older
  calc |slope d k m j| ≤ |window d k j| + |window d k (j - k - m)| := abs_sub _ _
    _ ≤ 2 * (k * bound) := by linarith

def drift (k : Nat) (alp bound : ℚ) : ℚ := 4 * (k * ((1 + |alp|) * bound))

theorem Filtered.step_small (filtered : Filtered noise k m alp width t)
    (nonneg : 0 ≤ bound) (small : ∀ n < width, |noise n| ≤ bound) {n : Nat}
    (inside : n + 1 < width) : |t (n + 1) - t n| ≤ drift k alp bound := by
  have scale : 0 ≤ (1 + |alp|) * bound := mul_nonneg (by positivity) nonneg
  by_cases early : n + 1 < 2 * k + m + 2
  · rw [filtered.start (n + 1) inside early, filtered.start n (by omega) (by omega), sub_self,
      abs_zero, drift]
    positivity
  · have discris : ∀ i < width, |discri alp noise i| ≤ (1 + |alp|) * bound :=
      fun i bounded => discri_small small bounded
    have now : |slope (discri alp noise) k m (n + 1)| ≤ 2 * (k * ((1 + |alp|) * bound)) :=
      slope_small scale fun i before => discris i (by omega)
    have first : |slope (discri alp noise) k m (2 * k + m + 1)| ≤
        2 * (k * ((1 + |alp|) * bound)) :=
      slope_small scale fun i before => discris i (by omega)
    have change : t (n + 1) - t n =
        slope (discri alp noise) k m (n + 1) - slope (discri alp noise) k m (2 * k + m + 1) := by
      rw [filtered.sum (by omega) inside, filtered.sum (by omega : 2 * k + m + 1 ≤ n) (by omega),
        Finset.sum_Icc_succ_top (by omega)]
      ring
    rw [change, drift]
    exact (abs_sub _ _).trans (by linarith)

theorem Filtered.drifts (filtered : Filtered noise k m alp width t) (nonneg : 0 ≤ bound)
    (small : ∀ n < width, |noise n| ≤ bound) {n j : Nat} (inside : n + j < width) :
    |t (n + j) - t n| ≤ j * drift k alp bound := by
  rw [← nsmul_eq_mul]
  apply abs_sub_le_of_step
  intro i _ before
  exact filtered.step_small nonneg small (by omega)

theorem Filtered.windows_drift (filtered : Filtered noise k m alp width t) (nonneg : 0 ≤ bound)
    (small : ∀ n < width, |noise n| ≤ bound) {first gap number : Nat}
    (inside : first + gap + number < width) :
    |∑ i ∈ Finset.range (number + 1), (t (first + gap + i) - t (first + i))| ≤
      (number + 1) * (gap * drift k alp bound) := by
  have moved (i : Nat) (member : i ∈ Finset.range (number + 1)) :
      |t (first + gap + i) - t (first + i)| ≤ gap * drift k alp bound := by
    have few := Finset.mem_range.mp member
    rw [Nat.add_right_comm first gap i]
    exact filtered.drifts nonneg small (by omega)
  calc _ ≤ ∑ i ∈ Finset.range (number + 1), |t (first + gap + i) - t (first + i)| :=
        Finset.abs_sum_le_sum_abs _ _
    _ ≤ ∑ _i ∈ Finset.range (number + 1), gap * drift k alp bound := Finset.sum_le_sum moved
    _ = _ := by rw [Finset.sum_const, Finset.card_range, nsmul_eq_mul, Nat.cast_add, Nat.cast_one]

end Filter

section Windows

theorem toInt_error (value : ℚ) : |(toInt value : ℚ) - value| ≤ 1 := by
  have positive : (0 : ℚ) < value.den := by
    exact_mod_cast value.pos
  have small : |value.num.tmod value.den| ≤ value.den := by
    have rest := Nat.mod_lt value.num.natAbs value.pos
    have size := Int.natAbs_tmod value.num value.den
    rw [Int.natAbs_natCast] at size
    rw [Int.abs_eq_natAbs]
    omega
  have split : (value.num : ℚ) = value.num.tmod value.den + value.den * toInt value := by
    rw [toInt]
    exact_mod_cast (Int.tmod_add_mul_tdiv value.num value.den).symm
  have whole : (toInt value : ℚ) - value = -(value.num.tmod value.den / value.den) := by
    have quotient := Rat.num_div_den value
    rw [split, add_div, mul_div_cancel_left₀ _ positive.ne'] at quotient
    linarith
  rw [whole, abs_neg, abs_div, abs_of_pos positive, div_le_one positive]
  exact_mod_cast small

theorem windowSum_error {image : CImg ℚ} {first number : Nat}
    (inside : first + number < image.width) :
    ∃ sum, windowSum image first (first + number) = some sum ∧
      |(sum : ℚ) - ∑ i ∈ Finset.range (number + 1), image.data (first + i)| ≤ number + 1 := by
  have loop : ∃ sum : Int, windowSum image first (first + number : Nat) = some sum ∧
      |(sum : ℚ) - ∑ i ∈ Finset.Ico first (first + number + 1), image.data i| ≤
        (first + number + 1 : Nat) - first := by
    apply cimgForInX_rule first (first + number + 1) fun i (sum : Int) =>
      |(sum : ℚ) - ∑ j ∈ Finset.Ico first i, image.data j| ≤ (i : ℚ) - first
    · split <;> omega
    · split <;> omega
    · omega
    · simp
    · intro i lower upper sum held
      refine ⟨toInt (sum + image.data i), ?_, ?_⟩
      · rw [CImg.read_of_lt (by omega)]
        rfl
      · rw [Finset.sum_Ico_succ_top lower]
        have cut := toInt_error (sum + image.data i)
        rw [abs_le] at cut held ⊢
        push_cast
        constructor <;> linarith
  obtain ⟨sum, ran, error⟩ := loop
  refine ⟨sum, by rw [← Nat.cast_add]; exact ran, ?_⟩
  rw [Finset.sum_Ico_eq_sum_range, (by omega : first + number + 1 - first = number + 1)] at error
  push_cast at error
  linarith

theorem calculationEnergy_error {image : CImg ℚ} {T number qDelay : Nat} (positive : 0 < number)
    (room : number ≤ T) (inside : T + qDelay + number < image.width) :
    ∃ E, calculationEnergy image T number qDelay = some E ∧
      |E * number - ∑ i ∈ Finset.range (number + 1),
        (image.data (T + qDelay + i) - image.data (T - number + i))| ≤ 2 * (number + 1) := by
  obtain ⟨base, summed, baseError⟩ :=
    windowSum_error (by omega : T - number + number < image.width)
  obtain ⟨peak, summedPeak, peakError⟩ := windowSum_error inside
  rw [Nat.cast_sub room, sub_add_cancel] at summed
  rw [Nat.cast_add] at summedPeak
  have divisor : (number : ℚ) ≠ 0 := by
    exact_mod_cast positive.ne'
  refine ⟨((peak - base : Int) : ℚ) / number, ?_, ?_⟩
  · rw [calculationEnergy, summed, summedPeak]
    simp only [Option.bind_eq_bind, Option.bind_some]
    rw [if_neg (by omega), Int.cast_natCast]
  · rw [div_mul_cancel₀ _ divisor, Finset.sum_sub_distrib]
    rw [abs_le] at baseError peakError ⊢
    push_cast
    constructor <;> linarith

theorem abs_sub_div_le {E sum error number : ℚ} (positive : 0 < number)
    (close : |E * number - sum| ≤ error) : |E - sum / number| ≤ error / number := by
  have whole : E - sum / number = (E * number - sum) / number := by
    rw [sub_div, mul_div_cancel_right₀ _ positive.ne']
  rw [whole, abs_div, abs_of_pos positive]
  exact div_le_div_of_nonneg_right close positive.le

end Windows

section Energy

variable {filter : CDataFilter ℚ} {frame noisy out : CImg ℚ} {T : Nat} {A B : Int} {δ : ℚ}
  {past : List (CImg ℚ)}

structure Quiet (filter : CDataFilter ℚ) (A B : Int) (δ : ℚ) : Prop where
  low : B * (1 - filter.alpha) + (1 + |filter.alpha|) * δ < filter.threshold
  reached : filter.threshold ≤ A + B * (1 - filter.alpha) - (1 + |filter.alpha|) * δ

theorem Quiet.signal (quiet : Quiet filter A B δ) (ideal : IdealFrame filter frame T A B)
    (small : ∀ n < frame.width, |noisy.data n - frame.data n| ≤ δ) :
    (∀ n < T, discriSignal filter.alpha noisy.data n < filter.threshold) ∧
      filter.threshold ≤ discriSignal filter.alpha noisy.data T := by
  have near (n : Nat) (later : n ≠ 0) (inside : n < frame.width) :
      |discriSignal filter.alpha noisy.data n - discriSignal filter.alpha frame.data n| ≤
        (1 + |filter.alpha|) * δ := by
    have signal : |discri filter.alpha (fun i => noisy.data i - frame.data i) n| ≤ _ :=
      discri_small small inside
    rw [discriSignal, discriSignal, if_neg later, if_neg later]
    convert signal using 2
    simp only [discri]
    ring
  constructor
  · intro n before
    by_cases first : n = 0
    · rw [discriSignal, if_pos first]
      exact ideal.positive
    · have inside := before.trans ideal.trigger_inside
      have close := near n first inside
      rw [ideal.signal first inside, if_neg before.ne, abs_le] at close
      linarith [quiet.low]
  · have close := near T ideal.trigger_ne ideal.trigger_inside
    rw [ideal.signal ideal.trigger_ne ideal.trigger_inside, if_pos rfl, abs_le] at close
    linarith [quiet.reached]

theorem noisy_stored (ideal : IdealFrame filter frame T A B) (delayed : 0 ≤ filter.Tm)
    (quiet : Quiet filter A B δ) (size : noisy.width = frame.width)
    (small : ∀ n < frame.width, |noisy.data n - frame.data n| ≤ δ)
    (frames : ∀ earlier ∈ past, earlier.width = frame.width) (memory : Nat → Nat → ℚ)
    (room : 0 < out.width) :
    ∃ E, storedEnergy memory filter past noisy out = some E ∧
      |E - ((filter.n : ℚ) + 1) * (filter.k * A) / filter.n| ≤
        ((filter.n : ℚ) + 1) / filter.n *
          (2 + (filter.q + filter.n) * drift filter.k.toNat filter.alpha δ) := by
  obtain ⟨k, rise⟩ := Int.eq_ofNat_of_zero_le (ideal.usable delayed).k
  obtain ⟨m, flat⟩ := Int.eq_ofNat_of_zero_le (ideal.usable delayed).m
  have positive := ideal.number
  obtain ⟨number, count⟩ := Int.eq_ofNat_of_zero_le (by omega : 0 ≤ filter.n)
  have delay := ideal.delay
  obtain ⟨qDelay, shift⟩ := Int.eq_ofNat_of_zero_le (by omega : 0 ≤ filter.q)
  have trigger := ideal.trigger
  have windows := ideal.room
  have top := ideal.top
  have within := ideal.inside
  have nonneg : 0 ≤ δ := (abs_nonneg _).trans (small T ideal.trigger_inside)
  obtain ⟨low, reached⟩ := quiet.signal ideal small
  obtain ⟨image, sameWidth, filtered, stored⟩ :=
    storedEnergy_triggered (ideal.usable delayed) rise flat (by simpa only [size] using frames)
      memory room (by rw [size]; exact ideal.trigger_inside) low reached
  -- the trapezoid of the pulse and what the filter makes of the noise
  obtain ⟨s, pulse⟩ := exists_filtered frame.data k m filter.alpha frame.width
  obtain ⟨t, rest⟩ :=
    exists_filtered (fun n => noisy.data n - frame.data n) k m filter.alpha frame.width
  rw [size] at filtered
  have samples (n : Nat) (inside : n < frame.width) :
      image.data n = B + A * trapezoid k m T n + t n := by
    rw [filtered.superpose pulse rest (fun i _ => by ring) inside,
      pulse.pulse ideal.pulse (by omega) inside]
  obtain ⟨E, found, error⟩ := calculationEnergy_error (by omega : 0 < number)
    (by omega : number ≤ T) (by omega : T + qDelay + number < image.width)
  have term (i : Nat) (bound : i < number + 1) :
      image.data (T + qDelay + i) - image.data (T - number + i) =
        k * A + (t (T + qDelay + i) - t (T - number + i)) := by
    rw [samples _ (by omega), samples _ (by omega), trapezoid_top (by omega) (by omega),
      trapezoid_baseline (by omega)]
    ring
  have deviation : |∑ i ∈ Finset.range (number + 1), (t (T + qDelay + i) - t (T - number + i))| ≤
      (number + 1) * (((qDelay + number : Nat) : ℚ) * drift k filter.alpha δ) := by
    have drifted := rest.windows_drift nonneg small
      (by omega : T - number + (qDelay + number) + number < frame.width)
    rwa [(by omega : T - number + (qDelay + number) = T + qDelay)] at drifted
  rw [Finset.sum_congr rfl fun i member => term i (Finset.mem_range.mp member),
    Finset.sum_add_distrib, Finset.sum_const, Finset.card_range, nsmul_eq_mul] at error
  have divisor : (0 : ℚ) < number := by
    exact_mod_cast (by omega : 0 < number)
  refine ⟨E, ?_, ?_⟩
  · rw [stored, count, shift]
    exact found
  · rw [rise, count, shift, Int.toNat_natCast]
    push_cast at error deviation ⊢
    rw [abs_le] at error deviation
    rw [div_mul_eq_mul_div]
    apply abs_sub_div_le divisor
    rw [abs_le]
    constructor <;> linarith

end Energy

end RockAMali
