import Mathlib.Tactic.Linarith
import RockAMali.IdealPulse
import RockAMali.Library.MachineInt

/-!
`CDataProcessor_trapezoid` of `CDataProcessor_energy.hpp`: the scratch images
that the object keeps, the discri signal and the kernel of an iteration.
-/

namespace RockAMali

open MachineInt

/-- `decalage= 2*k+m+2` in `read_parameters_and_setup`, where `k` and `m` are `int`. -/
def setupDecalage (k m : Int) : Option Int := do
  let twice ← int (2 * k)
  let sum ← int (twice + m)
  int (sum + 2)

structure DecalageFits (k m : Int) : Prop where
  twice : Fits (2 * k)
  sum : Fits (2 * k + m)
  decalage : Fits (2 * k + m + 2)

theorem setupDecalage_eq_some {k m decalage : Int} :
    setupDecalage k m = some decalage ↔ DecalageFits k m ∧ decalage = 2 * k + m + 2 := by
  constructor
  · intro computed
    obtain ⟨_, first, computed⟩ := Option.bind_eq_some_iff.mp computed
    obtain ⟨twice, rfl⟩ := int_eq_some.mp first
    obtain ⟨_, second, computed⟩ := Option.bind_eq_some_iff.mp computed
    obtain ⟨sum, rfl⟩ := int_eq_some.mp second
    obtain ⟨last, rfl⟩ := int_eq_some.mp computed
    exact ⟨⟨twice, sum, last⟩, rfl⟩
  · rintro ⟨⟨twice, sum, last⟩, rfl⟩
    simp only [setupDecalage, int_of_fits twice, int_of_fits sum, int_of_fits last,
      Option.bind_eq_bind, Option.bind_some]

structure CDataFilter (K : Type*) where
  k : Int
  m : Int
  n : Int
  q : Int
  Tm : Int
  decalage : Int
  threshold : K
  alpha : K
  fraction : K
  computed : setupDecalage k m = some decalage

theorem CDataFilter.setup {K : Type*} (filter : CDataFilter K) :
    filter.decalage = 2 * filter.k + filter.m + 2 :=
  (setupDecalage_eq_some.mp filter.computed).2

structure CDataProcessorTrapezoid (K : Type*) where
  imageAssigned : Bool
  s : CImg K
  imageDCF : CImg K
  trapezoid : CImg K

def CDataProcessorTrapezoid.Fits {K : Type*} (object : CDataProcessorTrapezoid K)
    (width : Nat) : Prop :=
  object.imageAssigned = true →
    object.s.width = width ∧ object.imageDCF.width = width ∧ object.trapezoid.width = width

theorem CDataProcessorTrapezoid.Fits.with_trapezoid {K : Type*}
    {object : CDataProcessorTrapezoid K} {width : Nat} {trapezoid : CImg K}
    (fits : object.Fits width) (same : trapezoid.width = width) :
    CDataProcessorTrapezoid.Fits { object with trapezoid } width := by
  intro assigned
  obtain ⟨sameS, sameDCF, _⟩ := fits assigned
  exact ⟨sameS, sameDCF, same⟩

theorem scratch_width {K : Type*} {assigned : Bool} {kept fresh : CImg K} {width : Nat}
    (old : assigned = true → kept.width = width) (new : fresh.width = width) :
    (if assigned then kept else fresh).width = width := by
  split
  · exact old ‹_›
  · exact new

section Discri

variable {K : Type*} [CommRing K]

def discriSimple (e s : CImg K) (alp : K) : Option (CImg K) := do
  let s ← s.write 0 0
  cimgForInX s.width 1 s.width (fun n s => do
    s.write n ((← e.read n) - alp * (← e.read (n - 1)))) s

def discriThreshold (s imageDCF : CImg K) (delay : Int) (frac : K) : Option (CImg K) :=
  cimgForInX imageDCF.width delay s.width (fun n imageDCF => do
    imageDCF.write n ((← s.read (n - delay)) - frac * (← s.read n))) imageDCF

/-- An image that is assigned without a value holds what its memory did. -/
def calculDiscri (memory : Nat → K) (object : CDataProcessorTrapezoid K) (e : CImg K)
    (Tpeak : Int) (frac alp : K) : Option (CDataProcessorTrapezoid K) := do
  let s := if object.imageAssigned then object.s else ⟨e.width, memory⟩
  let delay := (3 * Tpeak).tdiv 2
  let s ← discriSimple e s alp
  let imageDCF := if object.imageAssigned then object.imageDCF else ⟨s.width, fun _ => 0⟩
  let imageDCF ← discriThreshold s imageDCF delay frac
  some { object with imageAssigned := true, s, imageDCF }

def discriSignal (alp : K) (e : Nat → K) (n : Nat) : K :=
  if n = 0 then 0 else discri alp e n

theorem discriSimple_spec {e s : CImg K} (alp : K) (positive : 0 < e.width)
    (same : s.width = e.width) :
    ∃ signal, discriSimple e s alp = some signal ∧ signal.width = e.width ∧
      ∀ n < e.width, signal.data n = discriSignal alp e.data n := by
  rw [discriSimple, (by simp : (0 : Int) = (0 : Nat)), CImg.write_of_lt (by omega),
    Option.bind_eq_bind, Option.bind_some]
  apply cimgForInX_rule 1 e.width fun i (current : CImg K) =>
    current.width = e.width ∧ ∀ n < i, current.data n = discriSignal alp e.data n
  · split <;> omega
  · rw [CImg.set_width, same, if_neg (lt_irrefl _)]
    omega
  · omega
  · refine ⟨same, ?_⟩
    intro n first
    obtain rfl : n = 0 := by omega
    rw [CImg.set_data_self, discriSignal, if_pos rfl]
  · intro i lower upper current held
    obtain ⟨width, filled⟩ := held
    have before : e.read (i - 1) = some (e.data (i - 1)) := by
      rw [← Nat.cast_one, ← Nat.cast_sub lower]
      exact CImg.read_of_lt (by omega)
    refine ⟨current.set i (discri alp e.data i), ?_, width, ?_⟩
    · rw [CImg.read_of_lt upper, before]
      exact CImg.write_of_lt (by omega) _
    · intro n earlier
      by_cases last : n = i
      · rw [last, CImg.set_data_self, discriSignal, if_neg (by omega)]
      · rw [CImg.set_data_of_ne last]
        exact filled n (by omega)

theorem discriSimple_eq_some {e s signal : CImg K} {alp : K} (same : s.width = e.width)
    (computed : discriSimple e s alp = some signal) :
    signal.width = e.width ∧ ∀ n < e.width, signal.data n = discriSignal alp e.data n := by
  have positive : 0 < e.width := by
    by_contra empty
    have refused : s.write 0 0 = none := by
      rw [CImg.write, if_neg (by omega)]
    rw [discriSimple, refused] at computed
    cases computed
  obtain ⟨filled, ran, width, values⟩ := discriSimple_spec alp positive same
  cases ran.symm.trans computed
  exact ⟨width, values⟩

theorem discriThreshold_runs {s imageDCF : CImg K} (delay : Nat) (frac : K)
    (same : imageDCF.width = s.width) :
    ∃ signal, discriThreshold s imageDCF delay frac = some signal ∧ signal.width = s.width := by
  by_cases short : s.width ≤ delay
  · refine ⟨imageDCF, cimgForInX_empty (by omega), same⟩
  · apply cimgForInX_rule delay s.width fun _ (current : CImg K) => current.width = s.width
    · split <;> omega
    · split <;> omega
    · omega
    · exact same
    · intro i lower upper current width
      have back : s.read (i - delay) = some (s.data (i - delay)) := by
        rw [← Nat.cast_sub lower]
        exact CImg.read_of_lt (by omega)
      refine ⟨current.set i (s.data (i - delay) - frac * s.data i), ?_, width⟩
      rw [back, CImg.read_of_lt upper]
      exact CImg.write_of_lt (by omega) _

variable {memory : Nat → K} {object after : CDataProcessorTrapezoid K} {e : CImg K}
  {Tpeak : Int} {frac alp : K}

theorem calculDiscri_eq (memory : Nat → K) (Tpeak : Int) (frac alp : K) (positive : 0 < e.width)
    (fits : object.Fits e.width) :
    ∃ signal imageDCF : CImg K, signal.width = e.width ∧ imageDCF.width = e.width ∧
      (∀ n < e.width, signal.data n = discriSignal alp e.data n) ∧
      calculDiscri memory object e Tpeak frac alp =
        (discriThreshold signal imageDCF ((3 * Tpeak).tdiv 2) frac).bind fun imageDCF =>
          some { object with imageAssigned := true, s := signal, imageDCF } := by
  have sameS : (if object.imageAssigned then object.s else ⟨e.width, memory⟩).width = e.width :=
    scratch_width (fun assigned => (fits assigned).1) rfl
  obtain ⟨signal, ran, width, filled⟩ := discriSimple_spec alp positive sameS
  refine ⟨signal, if object.imageAssigned then object.imageDCF else ⟨signal.width, fun _ => 0⟩,
    width, scratch_width (fun assigned => (fits assigned).2.1) width, filled, ?_⟩
  rw [calculDiscri, ran]
  rfl

theorem calculDiscri_spec (positive : 0 < e.width) (fits : object.Fits e.width)
    (ran : calculDiscri memory object e Tpeak frac alp = some after) :
    after.s.width = e.width ∧ (∀ n < e.width, after.s.data n = discriSignal alp e.data n) ∧
      after.trapezoid = object.trapezoid := by
  obtain ⟨signal, imageDCF, width, _, filled, equation⟩ :=
    calculDiscri_eq memory Tpeak frac alp positive fits
  rw [equation] at ran
  obtain ⟨final, _, same⟩ := Option.bind_eq_some_iff.mp ran
  cases same
  exact ⟨width, filled, rfl⟩

theorem calculDiscri_runs (memory : Nat → K) (frac alp : K) (positive : 0 < e.width)
    (fits : object.Fits e.width) (delayed : 0 ≤ Tpeak) :
    ∃ after, calculDiscri memory object e Tpeak frac alp = some after := by
  obtain ⟨signal, imageDCF, width, sameDCF, _, equation⟩ :=
    calculDiscri_eq memory Tpeak frac alp positive fits
  obtain ⟨delay, place⟩ : ∃ delay : Nat, (3 * Tpeak).tdiv 2 = delay :=
    Int.eq_ofNat_of_zero_le (Int.tdiv_nonneg (by omega) (by omega))
  obtain ⟨final, ran, _⟩ := discriThreshold_runs delay frac (sameDCF.trans width.symm)
  rw [equation, place, ran]
  exact ⟨_, rfl⟩

end Discri

def kernelCPUTrapeze (memory : Nat → Nat → ℚ) (filter : CDataFilter ℚ)
    (object : CDataProcessorTrapezoid ℚ) (input out : CImg ℚ) :
    Option (CDataProcessorTrapezoid ℚ × Int × CImg ℚ) := do
  let trapezoid := if object.imageAssigned then object.trapezoid else ⟨input.width, memory 0⟩
  let trapezoid ←
    trapezoidalFilter input trapezoid filter.k filter.m filter.alpha filter.decalage
  let object ← calculDiscri (memory 1) { object with trapezoid } input filter.Tm
    filter.fraction filter.alpha
  let Ti ← calculTi object.s filter.threshold
  let E ← calculationEnergy object.trapezoid Ti filter.n filter.q
  let out ← out.write 0 E
  some (object, Ti, out)

structure IdealFrame (filter : CDataFilter ℚ) (frame : CImg ℚ) (T : Nat) (A B : Int) : Prop where
  pulse : Pulse frame.data frame.width T A B filter.alpha
  amplitude : 0 < A
  rise : 1 ≤ filter.k
  flat : 0 ≤ filter.m
  number : 1 ≤ filter.n
  trigger : 2 * filter.k + filter.m + 1 ≤ T
  room : filter.n ≤ T
  delay : filter.k ≤ filter.q
  top : filter.q + filter.n ≤ filter.k + filter.m
  inside : T + filter.q + filter.n < frame.width
  positive : 0 < filter.threshold
  low : B * (1 - filter.alpha) < filter.threshold
  reached : filter.threshold ≤ A + B * (1 - filter.alpha)

section Energy

variable {memory : Nat → Nat → ℚ} {filter : CDataFilter ℚ} {object : CDataProcessorTrapezoid ℚ}
  {input out : CImg ℚ} {T : Nat} {A B : Int}

namespace IdealFrame

theorem nonempty (ideal : IdealFrame filter input T A B) : 0 < input.width := by
  obtain ⟨_, _, rise, _, number, _, _, delay, _, inside, _, _, _⟩ := ideal
  omega

theorem trigger_spec (ideal : IdealFrame filter input T A B) {s : CImg ℚ}
    (width : s.width = input.width)
    (signal : ∀ n < input.width, s.data n = discriSignal filter.alpha input.data n) :
    calculTi s filter.threshold = some (T : Int) := by
  obtain ⟨pulse, _, rise, flat, number, trigger, _, delay, _, inside, positive, low, reached⟩ := ideal
  apply calculTi_spec
  · omega
  · intro n before
    rw [signal n (by omega), discriSignal]
    by_cases first : n = 0
    · rw [if_pos first]
      exact positive
    · rw [if_neg first, discri_pulse pulse (by omega) (by omega), if_neg (by omega)]
      linarith
  · rw [signal T (by omega), discriSignal, if_neg (by omega),
      discri_pulse pulse (by omega) (by omega), if_pos rfl]
    linarith

theorem energy_spec (ideal : IdealFrame filter input T A B) {trapezoid : CImg ℚ} {k m : Nat}
    (rise : filter.k = k) (flat : filter.m = m) (width : trapezoid.width = input.width)
    (filtered : Filtered input.data k m filter.alpha input.width trapezoid.data) :
    calculationEnergy trapezoid T filter.n filter.q =
      some (((filter.n : ℚ) + 1) * (filter.k * A) / filter.n) := by
  obtain ⟨pulse, _, _, _, positive, trigger, room, delay, top, inside, _, _, _⟩ := ideal
  obtain ⟨number, count⟩ := Int.eq_ofNat_of_zero_le (by omega : 0 ≤ filter.n)
  obtain ⟨qDelay, shift⟩ := Int.eq_ofNat_of_zero_le (by omega : 0 ≤ filter.q)
  have level (i : Nat) (bound : i < input.width) := filtered.pulse pulse (by omega) bound
  have baseline : ∀ i, T - number ≤ i → i ≤ T → trapezoid.data i = B := by
    intro i _ upper
    rw [level i (by omega), trapezoid_baseline upper]
    ring
  have peak : ∀ i, T + qDelay ≤ i → i ≤ T + qDelay + number →
      trapezoid.data i = (B + k * A : Int) := by
    intro i lower upper
    rw [level i (by omega), trapezoid_top (by omega) (by omega)]
    push_cast
    ring
  rw [count, shift, rise,
    calculationEnergy_levels (by omega) (by omega) (by omega) baseline peak]
  push_cast
  congr 2
  ring

theorem kernelCPUTrapeze_eq (ideal : IdealFrame filter input T A B)
    (fits : object.Fits input.width) (memory : Nat → Nat → ℚ) (out : CImg ℚ) :
    ∃ trapezoid : CImg ℚ, trapezoid.width = input.width ∧
      kernelCPUTrapeze memory filter object input out =
        (calculDiscri (memory 1) { object with trapezoid } input filter.Tm filter.fraction
          filter.alpha).bind fun object =>
            (out.write 0 (((filter.n : ℚ) + 1) * (filter.k * A) / filter.n)).bind fun out =>
              some (object, (T : Int), out) := by
  obtain ⟨k, rise⟩ := Int.eq_ofNat_of_zero_le (by linarith [ideal.rise] : 0 ≤ filter.k)
  obtain ⟨m, flat⟩ := Int.eq_ofNat_of_zero_le ideal.flat
  have sameTrapezoid : (if object.imageAssigned then object.trapezoid
      else ⟨input.width, memory 0⟩).width = input.width :=
    scratch_width (fun assigned => (fits assigned).2.2) rfl
  obtain ⟨trapezoid, filled, width, filtered⟩ :=
    trapezoidalFilter_spec ideal.nonempty sameTrapezoid k m filter.alpha
  refine ⟨trapezoid, width, ?_⟩
  have later := fits.with_trapezoid width
  rw [← rise, ← flat, ← filter.setup] at filled
  rw [kernelCPUTrapeze, filled, Option.bind_eq_bind, Option.bind_some]
  cases ran : calculDiscri (memory 1) { object with trapezoid } input filter.Tm filter.fraction
      filter.alpha with
  | none => rfl
  | some after =>
      obtain ⟨sameS, signal, kept⟩ := calculDiscri_spec ideal.nonempty later ran
      have found := ideal.trigger_spec sameS signal
      have energy := ideal.energy_spec rise flat width filtered
      simp only [Option.bind_eq_bind, Option.bind_some, found, kept, energy]

theorem kernelCPUTrapeze_output (ideal : IdealFrame filter input T A B)
    (fits : object.Fits input.width) {after : CDataProcessorTrapezoid ℚ} {Ti : Int}
    {written : CImg ℚ}
    (ran : kernelCPUTrapeze memory filter object input out = some (after, Ti, written)) :
    Ti = T ∧ written.data 0 = ((filter.n : ℚ) + 1) * (filter.k * A) / filter.n := by
  obtain ⟨trapezoid, _, equation⟩ := ideal.kernelCPUTrapeze_eq fits memory out
  rw [equation] at ran
  obtain ⟨scratch, _, ran⟩ := Option.bind_eq_some_iff.mp ran
  obtain ⟨stored, write, same⟩ := Option.bind_eq_some_iff.mp ran
  cases same
  refine ⟨rfl, ?_⟩
  rw [CImg.write] at write
  split at write
  · cases write
    exact CImg.set_data_self _
  · cases write

theorem kernelCPUTrapeze_runs (ideal : IdealFrame filter input T A B)
    (fits : object.Fits input.width) (memory : Nat → Nat → ℚ) (delayed : 0 ≤ filter.Tm)
    (room : 0 < out.width) :
    ∃ after written, kernelCPUTrapeze memory filter object input out =
      some (after, (T : Int), written) := by
  obtain ⟨trapezoid, width, equation⟩ := ideal.kernelCPUTrapeze_eq fits memory out
  have later := fits.with_trapezoid width
  obtain ⟨after, ran⟩ := calculDiscri_runs (memory 1) filter.fraction filter.alpha
    ideal.nonempty later delayed
  rw [equation, ran, Option.bind_some]
  exact ⟨after, _, by rw [← Nat.cast_zero, CImg.write_of_lt room, Option.bind_some]⟩

theorem height_ne (ideal : IdealFrame filter input T A B) :
    ((filter.n : ℚ) + 1) * (filter.k * A) / filter.n ≠ filter.k * A := by
  have number : (0 : ℚ) < filter.n := by
    exact_mod_cast ideal.number
  have height : (0 : ℚ) < filter.k * A := by
    exact_mod_cast Int.mul_pos ideal.rise ideal.amplitude
  intro same
  rw [div_eq_iff number.ne'] at same
  linarith

end IdealFrame

/-- Both windows hold one sample more than they are divided by, so that no pulse
gives its height. -/
theorem trapezoid_energy (ideal : IdealFrame filter input T A B) (fits : object.Fits input.width)
    (memory : Nat → Nat → ℚ) (out : CImg ℚ) :
    (0 ≤ filter.Tm → 0 < out.width → ∃ after written,
      kernelCPUTrapeze memory filter object input out = some (after, (T : Int), written) ∧
        written.data 0 = ((filter.n : ℚ) + 1) * (filter.k * A) / filter.n) ∧
    ¬ ∃ after written,
      kernelCPUTrapeze memory filter object input out = some (after, (T : Int), written) ∧
        written.data 0 = filter.k * A := by
  constructor
  · intro delayed room
    obtain ⟨after, written, ran⟩ := ideal.kernelCPUTrapeze_runs fits memory delayed room
    exact ⟨after, written, ran, (ideal.kernelCPUTrapeze_output fits ran).2⟩
  · rintro ⟨after, written, ran, height⟩
    have energy := (ideal.kernelCPUTrapeze_output fits ran).2
    exact ideal.height_ne (energy.symm.trans height)

def smallFilter : CDataFilter ℚ where
  k := 1
  m := 1
  n := 1
  q := 1
  Tm := 2
  decalage := 5
  threshold := 1
  alpha := 1 / 2
  fraction := 1 / 2
  computed := by decide

def smallFrame : CImg ℚ := ⟨7, fun n => if n < 4 then 0 else (1 / 2) ^ (n - 4)⟩

def newProcessor : CDataProcessorTrapezoid ℚ :=
  ⟨false, ⟨0, fun _ => 0⟩, ⟨0, fun _ => 0⟩, ⟨0, fun _ => 0⟩⟩

theorem newProcessor_fits (width : Nat) : newProcessor.Fits width := by
  intro assigned
  cases assigned

theorem smallFrame_ideal : IdealFrame smallFilter smallFrame 4 1 0 := by
  constructor
  case pulse =>
    constructor
    · intro n _ before
      simp [smallFrame, before]
    · intro n _ after
      simp [smallFrame, smallFilter, after]
  all_goals simp [smallFilter, smallFrame]

theorem trapezoid_energy_small :
    ∃ after written, kernelCPUTrapeze (fun _ _ => 0) smallFilter newProcessor smallFrame
      ⟨1, fun _ => 0⟩ = some (after, 4, written) ∧ written.data 0 = (1 + 1) * (1 * 1) / 1 := by
  have runs := (trapezoid_energy smallFrame_ideal (newProcessor_fits smallFrame.width)
    (fun _ _ => 0) ⟨1, fun _ => 0⟩).1 (by decide) (by decide)
  simpa [smallFilter] using runs

theorem trapezoid_energy_not_height :
    ¬ ∃ after written, kernelCPUTrapeze (fun _ _ => 0) smallFilter newProcessor smallFrame
      ⟨1, fun _ => 0⟩ = some (after, 4, written) ∧ written.data 0 = 1 * 1 := by
  rintro ⟨after, written, ran, height⟩
  have energy := (smallFrame_ideal.kernelCPUTrapeze_output (newProcessor_fits 7) ran).2
  rw [height] at energy
  norm_num [smallFilter] at energy

end Energy

end RockAMali
