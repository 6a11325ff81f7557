import Mathlib.Analysis.Complex.ExponentialBounds
import Mathlib.Analysis.SpecialFunctions.Exp
import RockAMali.PeakGenerator
import RockAMali.PeakProcessor

/-!
The energy of a generated pulse in real arithmetic. The maximum is the sample
where the rise ends, and the decay passes the threshold of the processor, which
is above its value after one `tau`.
-/

namespace RockAMali

open CDataGeneratorPeak

section Pulse

variable {b a n : Nat} {tau : ℝ} {A B : Int}

theorem pulse_baseline (order : b < a) (early : n ≤ b) : pulse Real.exp b a tau A B n = B := by
  by_cases last : n = b
  · simp [pulse, last, order]
  · rw [pulse, if_pos (by omega)]

theorem pulse_peak (order : b < a) : pulse Real.exp b a tau A B a = A + B := by
  simp [pulse, Nat.not_lt_of_lt order]

theorem pulse_rise (rising : b ≤ n) (before : n < a) :
    pulse Real.exp b a tau A B n = A * ((n - b : ℝ) / (a - b)) + B := by
  rw [pulse, if_neg (by omega), if_pos before, Nat.cast_sub rising]
  push_cast
  ring

theorem pulse_decay (order : b < a) (late : a ≤ n) :
    pulse Real.exp b a tau A B n = A * Real.exp (-((n - a : ℝ) / tau)) + B := by
  rw [pulse, if_neg (by omega), if_neg (by omega), Nat.cast_sub late, neg_div]

theorem le_pulse (some_pulse : 0 < A) (order : b < a) (n : Nat) :
    (B : ℝ) ≤ pulse Real.exp b a tau A B n := by
  have positive : (0 : ℝ) < A := by exact_mod_cast some_pulse
  by_cases early : n ≤ b
  · rw [pulse_baseline order early]
  · by_cases before : n < a
    · rw [pulse_rise (by omega) before]
      have part : (0 : ℝ) ≤ (n - b) / (a - b) := by
        apply div_nonneg <;> rw [sub_nonneg, Nat.cast_le] <;> omega
      nlinarith
    · rw [pulse_decay order (by omega)]
      have part := Real.exp_pos (-((n - a : ℝ) / tau))
      nlinarith

theorem pulse_lt (some_pulse : 0 < A) (decay : 0 < tau) (order : b < a) (other : n ≠ a) :
    pulse Real.exp b a tau A B n < A + B := by
  have positive : (0 : ℝ) < A := by exact_mod_cast some_pulse
  by_cases early : n ≤ b
  · rw [pulse_baseline order early]
    linarith
  · by_cases before : n < a
    · rw [pulse_rise (by omega) before]
      have whole : (0 : ℝ) < a - b := by
        rw [sub_pos, Nat.cast_lt]
        exact order
      have part : (n - b : ℝ) / (a - b) < 1 := by
        rw [div_lt_one whole, sub_lt_sub_iff_right, Nat.cast_lt]
        exact before
      nlinarith
    · rw [pulse_decay order (by omega)]
      have after : (0 : ℝ) < n - a := by
        rw [sub_pos, Nat.cast_lt]
        omega
      have part : Real.exp (-((n - a : ℝ) / tau)) < 1 := by
        rw [Real.exp_lt_one_iff, neg_lt_zero]
        exact div_pos after decay
      nlinarith

theorem pulse_after_tau (some_pulse : 0 < A) (decay : 0 < tau) (order : b < a)
    (late : a + ⌈tau⌉₊ ≤ n) : pulse Real.exp b a tau A B n ≤ A * 0.368 + B := by
  have positive : (0 : ℝ) < A := by exact_mod_cast some_pulse
  have after : tau ≤ n - a := by
    have whole : ((a + ⌈tau⌉₊ : Nat) : ℝ) ≤ n := by exact_mod_cast late
    have above := Nat.le_ceil tau
    push_cast at whole
    linarith
  have part : Real.exp (-((n - a : ℝ) / tau)) ≤ Real.exp (-1) := by
    rw [Real.exp_le_exp, neg_le_neg_iff, one_le_div decay]
    exact after
  have below := Real.exp_neg_one_lt_d9
  rw [pulse_decay order (by omega)]
  nlinarith

end Pulse

theorem toInt_of_nonneg {value : ℚ} (positive : 0 ≤ value) : toInt value = ⌊value⌋ := by
  rw [toInt, Int.tdiv_eq_ediv_of_nonneg (Rat.num_nonneg.mpr positive), Rat.floor_def']

structure Pulsed (in_ : CImg Nat) (b a : Nat) (tau : ℝ) (A B : Int) : Prop where
  order : b < a
  inside : a + ⌈tau⌉₊ < in_.width
  decay : 0 < tau
  height : 0 < A
  base : 0 ≤ B
  data : ∀ n < in_.width, in_.data n = ⌊pulse Real.exp b a tau A B n⌋₊

namespace Pulsed

variable {in_ : CImg Nat} {b a n : Nat} {tau : ℝ} {A B : Int}

theorem sample (pulsed : Pulsed in_ b a tau A B) (bound : n < in_.width) :
    (in_.data n : Int) = ⌊pulse Real.exp b a tau A B n⌋ := by
  have base : (0 : ℝ) ≤ B := by exact_mod_cast pulsed.base
  rw [pulsed.data n bound]
  exact Int.natCast_floor_eq_floor (base.trans (le_pulse pulsed.height pulsed.order n))

theorem sample_baseline (pulsed : Pulsed in_ b a tau A B) (bound : n < in_.width) (early : n ≤ b) :
    (in_.data n : Int) = B := by
  rw [pulsed.sample bound, pulse_baseline pulsed.order early, Int.floor_intCast]

theorem sample_peak (pulsed : Pulsed in_ b a tau A B) : (in_.data a : Int) = A + B := by
  have inside := pulsed.inside
  rw [pulsed.sample (by omega), pulse_peak pulsed.order, ← Int.cast_add, Int.floor_intCast]

theorem le_sample (pulsed : Pulsed in_ b a tau A B) (bound : n < in_.width) :
    B ≤ (in_.data n : Int) := by
  rw [pulsed.sample bound, Int.le_floor]
  exact le_pulse pulsed.height pulsed.order n

theorem sample_lt (pulsed : Pulsed in_ b a tau A B) (bound : n < in_.width) (other : n ≠ a) :
    (in_.data n : Int) < A + B := by
  rw [pulsed.sample bound, Int.floor_lt, Int.cast_add]
  exact pulse_lt pulsed.height pulsed.decay pulsed.order other

theorem threshold_eq (pulsed : Pulsed in_ b a tau A B) :
    toInt ((A : ℚ) * 0.368 + B) = ⌊(A : ℚ) * 0.368 + B⌋ := by
  have height : (0 : ℚ) < A := by exact_mod_cast pulsed.height
  have base : (0 : ℚ) ≤ B := by exact_mod_cast pulsed.base
  exact toInt_of_nonneg (by positivity)

theorem threshold_lt (pulsed : Pulsed in_ b a tau A B) :
    toInt ((A : ℚ) * 0.368 + B) < A + B := by
  have height : (0 : ℚ) < A := by exact_mod_cast pulsed.height
  rw [pulsed.threshold_eq, Int.floor_lt, Int.cast_add]
  linarith

theorem sample_after_tau (pulsed : Pulsed in_ b a tau A B) (bound : n < in_.width)
    (late : a + ⌈tau⌉₊ ≤ n) : (in_.data n : Int) ≤ toInt ((A : ℚ) * 0.368 + B) := by
  have below : ((in_.data n : Int) : ℝ) ≤ A * 0.368 + B := by
    rw [pulsed.sample bound]
    exact (Int.floor_le _).trans (pulse_after_tau pulsed.height pulsed.decay pulsed.order late)
  have fraction : ((0.368 : ℚ) : ℝ) = 0.368 := by norm_num
  rw [pulsed.threshold_eq, Int.le_floor, ← Rat.cast_le (K := ℝ)]
  push_cast [fraction]
  exact_mod_cast below

theorem min_eq (pulsed : Pulsed in_ b a tau A B) : ∃ low : Nat, in_.min = some low ∧ (low : Int) = B := by
  have inside := pulsed.inside
  have first := pulsed.sample_baseline (n := 0) (by omega) (Nat.zero_le b)
  refine ⟨in_.data 0, CImg.min_eq (by omega) ?_, first⟩
  intro n bound
  have above := pulsed.le_sample bound
  omega

theorem max_eq (pulsed : Pulsed in_ b a tau A B) :
    ∃ high : Nat, in_.max = some high ∧ (high : Int) = A + B := by
  have inside := pulsed.inside
  have peak := pulsed.sample_peak
  refine ⟨in_.data a, CImg.max_eq (by omega) ?_, peak⟩
  intro n bound
  by_cases here : n = a
  · rw [here]
  · have below := pulsed.sample_lt bound here
    omega

theorem trigger_stops (pulsed : Pulsed in_ b a tau A B) :
    ∃ stop, b < stop ∧ stop ≤ a ∧ Stops in_ (fun sample => decide ((sample : Int) = B)) 0 stop := by
  have inside := pulsed.inside
  have height := pulsed.height
  have peak := pulsed.sample_peak
  obtain ⟨stop, before, stops⟩ :
      ∃ stop ≤ a, Stops in_ (fun sample => decide ((sample : Int) = B)) 0 stop :=
    exists_stops (by omega) (Nat.zero_le a) (decide_eq_false (by omega))
  refine ⟨stop, ?_, before, stops⟩
  by_contra early
  have low := pulsed.sample_baseline stops.inside (by omega)
  have stopped := of_decide_eq_false stops.stopped
  exact stopped low

theorem peak_stops (pulsed : Pulsed in_ b a tau A B) :
    Stops in_ (fun sample => decide ((sample : Int) < A + B)) 0 a := by
  have inside := pulsed.inside
  constructor
  · omega
  · exact Nat.zero_le a
  · intro n _ before
    exact decide_eq_true (pulsed.sample_lt (by omega) (by omega))
  · rw [pulsed.sample_peak]
    exact decide_eq_false (lt_irrefl _)

theorem threshold_stops (pulsed : Pulsed in_ b a tau A B) :
    ∃ stop, a < stop ∧ stop ≤ a + ⌈tau⌉₊ ∧
      Stops in_ (fun sample => decide (toInt ((A : ℚ) * 0.368 + B) < (sample : Int))) a stop := by
  have low := pulsed.sample_after_tau pulsed.inside (Nat.le_refl _)
  obtain ⟨stop, before, stops⟩ : ∃ stop ≤ a + ⌈tau⌉₊,
      Stops in_ (fun sample => decide (toInt ((A : ℚ) * 0.368 + B) < (sample : Int))) a stop :=
    exists_stops pulsed.inside (Nat.le_add_right a _) (decide_eq_false (not_lt_of_ge low))
  refine ⟨stop, ?_, before, stops⟩
  have order := stops.order
  by_contra same
  have here : stop = a := by omega
  have stopped := of_decide_eq_false stops.stopped
  rw [here, pulsed.sample_peak] at stopped
  exact stopped pulsed.threshold_lt

end Pulsed

structure Finds (found : CDataProcessorMaxMin) (nbTB nbTA : Int) (tau : ℝ) (A B : Int) : Prop where
  base : found.B = B
  ampli : found.A = A
  peak : found.Ai = nbTA
  trigger : nbTB ≤ found.Ti ∧ found.Ti < nbTA
  decayed : nbTA < found.Hi ∧ found.Hi ≤ nbTA + ⌈tau⌉

theorem Pulsed.process {in_ : CImg Nat} {b a : Nat} {tau : ℝ} {A B : Int}
    (pulsed : Pulsed in_ b a tau A B) (members : CDataProcessorMaxMin) :
    ∃ found, members.process in_ = some found ∧ Finds found b a tau A B := by
  obtain ⟨low, least, base⟩ := pulsed.min_eq
  obtain ⟨high, greatest, top⟩ := pulsed.max_eq
  have ampli : (high : Int) - B = A := by omega
  obtain ⟨trigger, afterBase, beforePeak, triggerStops⟩ := pulsed.trigger_stops
  obtain ⟨decayed, afterPeak, afterTau, decayStops⟩ := pulsed.threshold_stops
  have order := pulsed.order
  have ceil : (⌈tau⌉₊ : Int) = ⌈tau⌉ := Int.natCast_ceil_eq_ceil pulsed.decay.le
  have Itrig : search in_ (fun sample => decide ((sample : Int) = B)) (fun i => i) 0 members.Ti =
      some ((trigger - 1 : Nat) : Int) := by
    rw [← Nat.cast_zero, search_stops triggerStops, if_neg (by omega)]
  have Imax : search in_ (fun sample => decide ((sample : Int) < A + B)) (fun i => i + 1) 0
      members.Ai = some (a : Int) := by
    rw [← Nat.cast_zero, search_stops pulsed.peak_stops, if_neg (by omega), Option.some_inj]
    omega
  have Ith : search in_ (fun sample => decide (toInt ((A : ℚ) * 0.368 + B) < (sample : Int)))
      (fun i => i + 1) a a = some (decayed : Int) := by
    rw [search_stops decayStops, if_neg (by omega), Option.some_inj]
    omega
  refine ⟨⟨A, B, a, decayed, (trigger - 1 : Nat), toInt ((A : ℚ) * 0.368 + B)⟩, ?_, ?_⟩
  · simp only [CDataProcessorMaxMin.process, least, greatest, Option.bind_eq_bind, Option.bind_some,
      base, ampli, Itrig, Imax, Ith]
  · constructor <;> simp only <;> omega

theorem energy_of_peak {A B nbTB nbTA : Int} {tau : ℝ} (image : CImg Nat) (height : 1 ≤ A)
    (base : 0 ≤ B) (start : 0 ≤ nbTB) (order : nbTB < nbTA) (decay : 0 < tau)
    (room : nbTA + ⌈tau⌉ ≤ (image.width : Int) - 1) {Tproc : Type} [IntCast Tproc]
    (out : CImg Tproc) (stores : 0 < out.width) (members : CDataProcessorMaxMin) :
    ∃ frame found result,
      peak Real.exp Nat.floor ⟨nbTB, nbTA, tau, A, B⟩ image = some frame ∧
      members.kernelCPUMaxMin frame out = some (result, found) ∧
      Finds found nbTB nbTA tau A B ∧ result.data 0 = (A : Tproc) := by
  obtain ⟨b, rfl⟩ := Int.eq_ofNat_of_zero_le start
  obtain ⟨a, rfl⟩ := Int.eq_ofNat_of_zero_le (by omega : 0 ≤ nbTA)
  have ceil : (⌈tau⌉₊ : Int) = ⌈tau⌉ := Int.natCast_ceil_eq_ceil decay.le
  obtain ⟨frame, filled, width, data⟩ :=
    peak_spec Real.exp Nat.floor (by omega : b < a) tau A B image
  have pulsed : Pulsed frame b a tau A B :=
    ⟨by omega, by omega, decay, by omega, base, fun n bound => data n (by omega)⟩
  obtain ⟨found, processed, finds⟩ := pulsed.process members
  refine ⟨frame, found, out.set 0 (found.A : Tproc), filled, ?_, finds, ?_⟩
  · have written : out.write 0 (found.A : Tproc) = some (out.set 0 (found.A : Tproc)) :=
      CImg.write_of_lt stores _
    simp only [CDataProcessorMaxMin.kernelCPUMaxMin, processed, written, Option.bind_eq_bind,
      Option.bind_some]
  · rw [CImg.set_data_self, finds.ampli]

theorem energy_of_peak_ten :
    ∃ frame found result,
      peak Real.exp Nat.floor ⟨1, 3, 2, 10, 2⟩ ⟨6, fun _ => 9⟩ = some frame ∧
      CDataProcessorMaxMin.kernelCPUMaxMin frame (⟨1, fun _ => 0⟩ : CImg ℚ) ⟨7, 7, 7, 7, 7, 7⟩ =
        some (result, found) ∧
      Finds found 1 3 2 10 2 ∧ result.data 0 = ((10 : Int) : ℚ) :=
  energy_of_peak ⟨6, fun _ => 9⟩ (by decide) (by decide) (by decide) (by decide) two_pos
    (by norm_num) ⟨1, fun _ => 0⟩ Nat.one_pos ⟨7, 7, 7, 7, 7, 7⟩

end RockAMali
