import Mathlib.Algebra.BigOperators.Intervals
import Mathlib.Algebra.Order.Field.Rat
import Mathlib.Tactic.Ring
import RockAMali.CImg

/-!
`CData_Filter` of `CDataProcessor_energy.hpp` in exact arithmetic: the
trapezoidal filter, the trigger search and the energy of two windows.
-/

namespace RockAMali

section Filter

variable {K : Type*} [CommRing K]

def trapezoidalFilter (e s : CImg K) (ks ms : Int) (alp : K) (decalage : Int) :
    Option (CImg K) := do
  let s ← cimgForInX s.width 0 (decalage - 1) (fun n s => do s.write n (← e.read 0)) s
  cimgForInX s.width decalage (s.width - 1) (fun n s => do
    s.write n (2 * (← s.read (n - 1)) - (← s.read (n - 2)) + (← e.read (n - 1))
      - alp * (← e.read (n - 2)) - (← e.read (n - (ks + 1)))
      + alp * (← e.read (n - (ks + 2))) - (← e.read (n - (ks + ms + 1)))
      + alp * (← e.read (n - (ks + ms + 2)))
      + (← e.read (n - (2 * ks + ms + 1))) - alp * (← e.read (n - (2 * ks + ms + 2))))) s

def discri (alp : K) (e : Nat → K) (n : Nat) : K := e n - alp * e (n - 1)

structure Filtered (e : Nat → K) (k m : Nat) (alp : K) (width : Nat) (s : Nat → K) : Prop where
  start : ∀ n < width, n < 2 * k + m + 2 → s n = e 0
  step : ∀ n < width, 2 * k + m + 2 ≤ n →
    s n = 2 * s (n - 1) - s (n - 2) + discri alp e (n - 1) - discri alp e (n - (k + 1))
      - discri alp e (n - (k + m + 1)) + discri alp e (n - (2 * k + m + 1))

variable {e s : CImg K} {k m : Nat} {alp : K}

omit [CommRing K] in
theorem trapezoidalFilter_start (positive : 0 < e.width) (same : s.width = e.width)
    (decalage : Nat) :
    ∃ first, cimgForInX s.width 0 (decalage - 1) (fun n s => do s.write n (← e.read 0)) s =
        some first ∧
      first.width = e.width ∧ ∀ n < e.width, n < decalage → first.data n = e.data 0 := by
  have head : e.read 0 = some (e.data 0) := CImg.read_of_lt positive
  have loop : ∃ first, cimgForInX s.width 0 (decalage - 1)
      (fun n s => do s.write n (← e.read 0)) s = some first ∧
        (first.width = e.width ∧ ∀ n < min decalage e.width, first.data n = e.data 0) := by
    apply cimgForInX_rule 0 (min decalage e.width) fun i (current : CImg K) =>
      current.width = e.width ∧ ∀ n < i, current.data n = e.data 0
    · rfl
    · split <;> omega
    · exact Nat.zero_le _
    · exact ⟨same, fun n before => (Nat.not_lt_zero n before).elim⟩
    · intro i _ bound current held
      obtain ⟨width, filled⟩ := held
      have inside : i < current.width := by omega
      refine ⟨current.set i (e.data 0), ?_, width, ?_⟩
      · rw [head]
        exact CImg.write_of_lt inside _
      · intro n earlier
        by_cases last : n = i
        · simp [last]
        · rw [CImg.set_data_of_ne last]
          exact filled n (by omega)
  obtain ⟨first, ran, width, filled⟩ := loop
  exact ⟨first, ran, width, fun n bound early => filled n (by omega)⟩

theorem trapezoidalFilter_step (e s : CImg K) (k m : Nat) (alp : K) {n : Nat}
    (late : 2 * k + m + 2 ≤ n) (inside : n < s.width) (same : s.width = e.width) :
    (do s.write n (2 * (← s.read (n - 1)) - (← s.read (n - 2)) + (← e.read (n - 1))
      - alp * (← e.read (n - 2)) - (← e.read (n - (k + 1)))
      + alp * (← e.read (n - (k + 2))) - (← e.read (n - (k + m + 1)))
      + alp * (← e.read (n - (k + m + 2)))
      + (← e.read (n - (2 * k + m + 1))) - alp * (← e.read (n - (2 * k + m + 2)))) :
        Option (CImg K)) =
      some (s.set n (2 * s.data (n - 1) - s.data (n - 2) + discri alp e.data (n - 1)
        - discri alp e.data (n - (k + 1)) - discri alp e.data (n - (k + m + 1))
        + discri alp e.data (n - (2 * k + m + 1)))) := by
  have back (image : CImg K) (wide : image.width = e.width) {x : Int} (shift : Nat)
      (place : x = n - (shift : Nat)) (positive : 0 < shift) (room : shift ≤ n) :
      image.read x = some (image.data (n - shift)) := by
    rw [place, ← Nat.cast_sub room]
    exact CImg.read_of_lt (by omega)
  have s1 : s.read (n - 1) = some (s.data (n - 1)) := back s same 1 (by omega) (by omega) (by omega)
  have s2 : s.read (n - 2) = some (s.data (n - 2)) := back s same 2 (by omega) (by omega) (by omega)
  have e1 : e.read (n - 1) = some (e.data (n - 1)) := back e rfl 1 (by omega) (by omega) (by omega)
  have e2 : e.read (n - 2) = some (e.data (n - 2)) := back e rfl 2 (by omega) (by omega) (by omega)
  have e3 : e.read (n - (k + 1)) = some (e.data (n - (k + 1))) :=
    back e rfl (k + 1) (by omega) (by omega) (by omega)
  have e4 : e.read (n - (k + 2)) = some (e.data (n - (k + 2))) :=
    back e rfl (k + 2) (by omega) (by omega) (by omega)
  have e5 : e.read (n - (k + m + 1)) = some (e.data (n - (k + m + 1))) :=
    back e rfl (k + m + 1) (by omega) (by omega) (by omega)
  have e6 : e.read (n - (k + m + 2)) = some (e.data (n - (k + m + 2))) :=
    back e rfl (k + m + 2) (by omega) (by omega) (by omega)
  have e7 : e.read (n - (2 * k + m + 1)) = some (e.data (n - (2 * k + m + 1))) :=
    back e rfl (2 * k + m + 1) (by omega) (by omega) (by omega)
  have e8 : e.read (n - (2 * k + m + 2)) = some (e.data (n - (2 * k + m + 2))) :=
    back e rfl (2 * k + m + 2) (by omega) (by omega) (by omega)
  rw [s1, s2, e1, e2, e3, e4, e5, e6, e7, e8]
  simp only [Option.bind_eq_bind, Option.bind_some]
  rw [CImg.write_of_lt inside]
  congr 2
  simp only [discri, Nat.sub_sub]
  ring

theorem Filtered.set {n : Nat} (filtered : Filtered e.data k m alp n s.data)
    (late : 2 * k + m + 2 ≤ n) :
    Filtered e.data k m alp (n + 1) (s.set n (2 * s.data (n - 1) - s.data (n - 2)
      + discri alp e.data (n - 1) - discri alp e.data (n - (k + 1))
      - discri alp e.data (n - (k + m + 1)) + discri alp e.data (n - (2 * k + m + 1)))).data := by
  constructor
  · intro i _ early
    rw [CImg.set_data_of_ne (by omega)]
    exact filtered.start i (by omega) early
  · intro i before lateIndex
    rw [CImg.set_data_of_ne (by omega : i - 1 ≠ n), CImg.set_data_of_ne (by omega : i - 2 ≠ n)]
    by_cases last : i = n
    · rw [last, CImg.set_data_self]
    · rw [CImg.set_data_of_ne last]
      exact filtered.step i (by omega) lateIndex

theorem trapezoidalFilter_spec (positive : 0 < e.width) (same : s.width = e.width)
    (k m : Nat) (alp : K) :
    ∃ filtered, trapezoidalFilter e s k m alp (2 * k + m + 2) = some filtered ∧
      filtered.width = e.width ∧ Filtered e.data k m alp e.width filtered.data := by
  obtain ⟨first, ran, width, filled⟩ :=
    trapezoidalFilter_start positive same (2 * k + m + 2)
  push_cast at ran
  rw [trapezoidalFilter, ran, Option.bind_eq_bind, Option.bind_some]
  by_cases short : e.width ≤ 2 * k + m + 2
  · refine ⟨first, cimgForInX_empty (by omega), width, ?_⟩
    constructor
    · exact filled
    · intro n bound late
      omega
  · apply cimgForInX_rule (2 * k + m + 2) e.width fun i (current : CImg K) =>
      current.width = e.width ∧ Filtered e.data k m alp i current.data
    · split <;> omega
    · split <;> omega
    · omega
    · refine ⟨width, fun n bound early => filled n (by omega) early, ?_⟩
      intro n bound late
      omega
    · intro n late before current held
      obtain ⟨same, filtered⟩ := held
      exact ⟨_, trapezoidalFilter_step e current k m alp late (by omega) same, same,
        filtered.set late⟩

end Filter

section Trigger

variable {K : Type*} [LinearOrder K]

/-- The loop of `Calcul_Ti` from position `i` on, which reads past the end of a
signal that never reaches the threshold. -/
def calculTiFrom (s : CImg K) (th : K) : Nat → Nat → Int → Option Int
  | 0, _, _ => none
  | passes + 1, i, Ti =>
      (s.read i).bind fun sample =>
        if sample < th then calculTiFrom s th passes (i + 1) (i + 1) else some Ti

def calculTi (s : CImg K) (th : K) : Option Int := calculTiFrom s th (s.width + 1) 0 0

theorem calculTiFrom_spec {s : CImg K} {th : K} {T passes i : Nat} (inside : T < s.width)
    (low : ∀ j < T, s.data j < th) (reached : th ≤ s.data T) (start : i ≤ T)
    (enough : T < i + passes) : calculTiFrom s th passes i i = some (T : Int) := by
  induction passes generalizing i with
  | zero => omega
  | succ passes ih =>
      rw [calculTiFrom, CImg.read_of_lt (by omega), Option.bind_some]
      by_cases found : i = T
      · rw [found, if_neg (not_lt_of_ge reached)]
      · rw [if_pos (low i (by omega))]
        exact ih (by omega) (by omega)

theorem calculTi_spec {s : CImg K} {th : K} {T : Nat} (inside : T < s.width)
    (low : ∀ j < T, s.data j < th) (reached : th ≤ s.data T) : calculTi s th = some (T : Int) := by
  apply calculTiFrom_spec inside low reached
  · omega
  · omega

theorem calculTi_congr {s t : CImg K} (width : s.width = t.width)
    (same : ∀ n < t.width, s.data n = t.data n) (th : K) : calculTi s th = calculTi t th := by
  have loop (passes i : Nat) (Ti : Int) :
      calculTiFrom s th passes i Ti = calculTiFrom t th passes i Ti := by
    induction passes generalizing i Ti with
    | zero => rfl
    | succ passes ih => simp only [calculTiFrom, CImg.read_congr width same, ih]
  rw [calculTi, calculTi, width, loop]

theorem calculTiFrom_none {s : CImg K} {th : K} {passes i : Nat} {Ti : Int}
    (low : ∀ j < s.width, s.data j < th) : calculTiFrom s th passes i Ti = none := by
  induction passes generalizing i Ti with
  | zero => rfl
  | succ passes ih =>
      rw [calculTiFrom, CImg.read]
      split
      · rw [Option.bind_some, Int.toNat_natCast, if_pos (low i (by omega))]
        exact ih
      · rfl

theorem calculTi_none {s : CImg K} {th : K} (low : ∀ j < s.width, s.data j < th) :
    calculTi s th = none :=
  calculTiFrom_none low

theorem exists_trigger {s : CImg K} {th : K} (reached : ∃ i < s.width, th ≤ s.data i) :
    ∃ T : Nat, T < s.width ∧ (∀ j < T, s.data j < th) ∧ th ≤ s.data T := by
  obtain ⟨i, inside, high⟩ := reached
  have some_sample : ∃ i, th ≤ s.data i := ⟨i, high⟩
  classical
  refine ⟨Nat.find some_sample, ?_, ?_, Nat.find_spec some_sample⟩
  · exact Nat.lt_of_le_of_lt (Nat.find_min' some_sample high) inside
  · intro j before
    exact lt_of_not_ge (Nat.find_min some_sample before)

structure Trigger (s : CImg K) (th : K) (Ti : Int) : Prop where
  first : ∀ i < s.width, (∀ j < i, s.data j < th) → th ≤ s.data i → Ti = i
  none : (∀ i < s.width, s.data i < th) → ¬(0 ≤ Ti ∧ Ti < s.width)

theorem calculTi_total_iff (s : CImg K) (th : K) :
    (∃ Ti, calculTi s th = some Ti ∧ Trigger s th Ti) ↔ ∃ i < s.width, th ≤ s.data i := by
  constructor
  · rintro ⟨Ti, found, _⟩
    by_contra never
    push Not at never
    rw [calculTi_none never] at found
    cases found
  · intro reached
    obtain ⟨T, inside, low, high⟩ := exists_trigger reached
    refine ⟨T, calculTi_spec inside low high, ?_, ?_⟩
    · intro i _ before there
      obtain early | rfl | late := Nat.lt_trichotomy i T
      · exact absurd there (not_le_of_gt (low i early))
      · rfl
      · exact absurd high (not_le_of_gt (before T late))
    · intro never
      exact absurd high (not_le_of_gt (never T inside))

theorem calculTi_flat :
    ¬∃ Ti, calculTi (⟨4, fun _ => 0⟩ : CImg Int) 1 = some Ti ∧ Trigger ⟨4, fun _ => 0⟩ 1 Ti := by
  rintro ⟨Ti, found, _⟩
  have never : calculTi (⟨4, fun _ => 0⟩ : CImg Int) 1 = none := calculTi_none fun _ _ => Int.one_pos
  rw [never] at found
  cases found

end Trigger

/-! The energy, whose two sums are of type `int`. -/

def toInt (value : ℚ) : Int := value.num.tdiv value.den

@[simp] theorem toInt_intCast (value : Int) : toInt value = value := by
  simp [toInt]

def windowSum (image : CImg ℚ) (x0 x1 : Int) : Option Int :=
  cimgForInX image.width x0 x1 (fun i sum => do some (toInt (sum + (← image.read i)))) 0

def calculationEnergy (trapezoid : CImg ℚ) (Ti number qDelay : Int) : Option ℚ := do
  let base ← windowSum trapezoid (Ti - number) Ti
  let peak ← windowSum trapezoid (Ti + qDelay) (Ti + qDelay + number)
  -- both sums are printed divided by `number` as integers
  if number = 0 then none else some (((peak - base : Int) : ℚ) / number)

theorem windowSum_runs (image : CImg ℚ) (x0 x1 : Int) : ∃ sum, windowSum image x0 x1 = some sum := by
  apply cimgForInX_runs
  intro i positive inside sum
  obtain ⟨x, rfl⟩ := Int.eq_ofNat_of_zero_le positive
  rw [CImg.read_of_lt (by omega)]
  exact ⟨_, rfl⟩

theorem calculationEnergy_runs (trapezoid : CImg ℚ) (Ti qDelay : Int) {number : Int}
    (divides : number ≠ 0) : ∃ E, calculationEnergy trapezoid Ti number qDelay = some E := by
  obtain ⟨base, summed⟩ := windowSum_runs trapezoid (Ti - number) Ti
  obtain ⟨peak, summedPeak⟩ := windowSum_runs trapezoid (Ti + qDelay) (Ti + qDelay + number)
  rw [calculationEnergy, summed, summedPeak]
  exact ⟨_, if_neg divides⟩

theorem windowSum_congr {image other : CImg ℚ} (width : image.width = other.width)
    (same : ∀ n < other.width, image.data n = other.data n) (x0 x1 : Int) :
    windowSum image x0 x1 = windowSum other x0 x1 := by
  simp only [windowSum, width, CImg.read_congr width same]

theorem calculationEnergy_congr {trapezoid other : CImg ℚ} (width : trapezoid.width = other.width)
    (same : ∀ n < other.width, trapezoid.data n = other.data n) (Ti number qDelay : Int) :
    calculationEnergy trapezoid Ti number qDelay = calculationEnergy other Ti number qDelay := by
  simp only [calculationEnergy, windowSum_congr width same]

theorem windowSum_spec {image : CImg ℚ} {first last : Nat} {values : Nat → Int}
    (order : first ≤ last) (inside : last < image.width)
    (whole : ∀ i, first ≤ i → i ≤ last → image.data i = values i) :
    windowSum image first last = some (∑ i ∈ Finset.Ico first (last + 1), values i) := by
  have loop : ∃ sum, windowSum image first last = some sum ∧
      sum = ∑ i ∈ Finset.Ico first (last + 1), values i := by
    apply cimgForInX_rule first (last + 1) fun i sum => sum = ∑ j ∈ Finset.Ico first i, values j
    · split <;> omega
    · split <;> omega
    · omega
    · rw [Finset.Ico_self, Finset.sum_empty]
    · intro i lower upper sum held
      have next : toInt ((sum : ℚ) + image.data i) = sum + values i := by
        rw [whole i lower (by omega), ← Int.cast_add, toInt_intCast]
      refine ⟨sum + values i, ?_, ?_⟩
      · rw [CImg.read_of_lt (by omega), Option.bind_eq_bind, Option.bind_some, next]
      · rw [Finset.sum_Ico_succ_top lower, held]
  obtain ⟨sum, ran, total⟩ := loop
  rw [ran, total]

theorem windowSum_level {image : CImg ℚ} {first number : Nat} {level : Int}
    (inside : first + number < image.width)
    (flat : ∀ i, first ≤ i → i ≤ first + number → image.data i = level) :
    windowSum image first (first + number) = some ((number + 1) * level) := by
  have sum := windowSum_spec (Nat.le_add_right first number) inside flat
  rw [Finset.sum_const, Nat.card_Ico, nsmul_eq_mul,
    (by omega : first + number + 1 - first = number + 1)] at sum
  push_cast at sum
  exact sum

theorem calculationEnergy_levels {trapezoid : CImg ℚ} {Ti number qDelay : Nat} {base peak : Int}
    (positive : 0 < number) (room : number ≤ Ti) (inside : Ti + qDelay + number < trapezoid.width)
    (baseline : ∀ i, Ti - number ≤ i → i ≤ Ti → trapezoid.data i = base)
    (top : ∀ i, Ti + qDelay ≤ i → i ≤ Ti + qDelay + number → trapezoid.data i = peak) :
    calculationEnergy trapezoid Ti number qDelay =
      some (((number : ℚ) + 1) * (peak - base) / number) := by
  have low : windowSum trapezoid (Ti - number) Ti = some ((number + 1) * base) := by
    have sum : windowSum trapezoid (Ti - number : Nat) ((Ti - number : Nat) + number) =
        some ((number + 1) * base) :=
      windowSum_level (by omega) fun i lower upper => baseline i lower (by omega)
    rw [Nat.cast_sub room, sub_add_cancel] at sum
    exact sum
  have high : windowSum trapezoid (Ti + qDelay) (Ti + qDelay + number) =
      some ((number + 1) * peak) := by
    have sum := windowSum_level inside top
    rw [Nat.cast_add] at sum
    exact sum
  have divisor : (number : Int) ≠ 0 := by omega
  rw [calculationEnergy, low, high]
  simp only [Option.bind_eq_bind, Option.bind_some]
  rw [if_neg divisor]
  push_cast
  congr 2
  ring

end RockAMali
