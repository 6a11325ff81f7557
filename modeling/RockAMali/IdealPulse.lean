import RockAMali.DataFilter

/-!
The filter on an ideal pulse, which decays by the factor of the filter from
its first sample on: a trapezoid, as a sum of four ramps.
-/

namespace RockAMali

variable {K : Type*} [CommRing K]

structure Pulse (e : Nat → K) (width T : Nat) (A B alp : K) : Prop where
  baseline : ∀ n < width, n < T → e n = B
  decay : ∀ n < width, T ≤ n → e n = B + A * alp ^ (n - T)

variable {e s : Nat → K} {width k m T : Nat} {A B alp : K}

theorem discri_pulse (pulse : Pulse e width T A B alp) (late : 0 < T) {n : Nat}
    (inside : n < width) : discri alp e n = B - alp * B + if n = T then A else 0 := by
  by_cases before : n < T
  · rw [discri, pulse.baseline n inside before, pulse.baseline (n - 1) (by omega) (by omega),
      if_neg (by omega)]
    ring
  · by_cases trigger : n = T
    · rw [discri, pulse.decay n inside (by omega), pulse.baseline (n - 1) (by omega) (by omega),
        if_pos trigger, trigger, Nat.sub_self]
      ring
    · have power : alp ^ (n - T) = alp * alp ^ (n - 1 - T) := by
        rw [← pow_succ']
        congr 1
        omega
      rw [discri, pulse.decay n inside (by omega), pulse.decay (n - 1) (by omega) (by omega),
        if_neg trigger, power]
      ring

def ramp (start n : Nat) : K := ((n - start : Nat) : K)

theorem ramp_of_le {start n : Nat} (early : n ≤ start) : ramp start n = (0 : K) := by
  rw [ramp, Nat.sub_eq_zero_of_le early, Nat.cast_zero]

theorem ramp_add (start n : Nat) : ramp start (start + n) = (n : K) := by
  rw [ramp, Nat.add_sub_cancel_left]

theorem ramp_step (start : Nat) {n : Nat} (late : 2 ≤ n) :
    (ramp start n : K) =
      2 * ramp start (n - 1) - ramp start (n - 2) + if n - 1 = start then 1 else 0 := by
  by_cases early : n ≤ start
  · rw [ramp_of_le early, ramp_of_le (by omega), ramp_of_le (by omega), if_neg (by omega)]
    ring
  · obtain ⟨j, rfl⟩ : ∃ j, n = start + (j + 1) := ⟨n - start - 1, by omega⟩
    cases j with
    | zero =>
        rw [ramp_of_le (by omega : start + (0 + 1) - 1 ≤ start),
          ramp_of_le (by omega : start + (0 + 1) - 2 ≤ start), ramp_add, if_pos (by omega)]
        push_cast
        ring
    | succ j =>
        rw [(by omega : start + (j + 1 + 1) - 1 = start + (j + 1)),
          (by omega : start + (j + 1 + 1) - 2 = start + j), ramp_add, ramp_add, ramp_add,
          if_neg (by omega)]
        push_cast
        ring

def trapezoid (k m T n : Nat) : K :=
  ramp T n - ramp (T + k) n - ramp (T + k + m) n + ramp (T + 2 * k + m) n

theorem trapezoid_baseline {n : Nat} (early : n ≤ T) : (trapezoid k m T n : K) = 0 := by
  rw [trapezoid, ramp_of_le early, ramp_of_le (by omega), ramp_of_le (by omega),
    ramp_of_le (by omega)]
  ring

theorem trapezoid_top {n : Nat} (lower : T + k ≤ n) (upper : n ≤ T + k + m) :
    (trapezoid k m T n : K) = k := by
  obtain ⟨j, rfl⟩ := Nat.exists_eq_add_of_le lower
  rw [trapezoid, ramp_add (T + k), ramp_of_le upper,
    ramp_of_le (by omega : T + k + j ≤ T + 2 * k + m), Nat.add_assoc T k j, ramp_add]
  push_cast
  ring

theorem trapezoid_rise {j : Nat} (rising : j ≤ k) : (trapezoid k m T (T + j) : K) = j := by
  rw [trapezoid, ramp_add, ramp_of_le (by omega), ramp_of_le (by omega), ramp_of_le (by omega)]
  ring

theorem trapezoid_fall {j : Nat} (falling : j ≤ k) :
    (trapezoid k m T (T + k + m + j) : K) = k - j := by
  rw [trapezoid, ramp_add (T + k + m), ramp_of_le (by omega : T + k + m + j ≤ T + 2 * k + m),
    (by omega : T + k + m + j = T + (k + m + j)), ramp_add,
    (by omega : T + (k + m + j) = T + k + (m + j)), ramp_add]
  push_cast
  ring

theorem trapezoid_end {n : Nat} (late : T + 2 * k + m ≤ n) : (trapezoid k m T n : K) = 0 := by
  obtain ⟨j, rfl⟩ := Nat.exists_eq_add_of_le late
  rw [trapezoid, ramp_add (T + 2 * k + m), (by omega : T + 2 * k + m + j = T + (2 * k + m + j)),
    ramp_add, (by omega : T + (2 * k + m + j) = T + k + (k + m + j)), ramp_add,
    (by omega : T + k + (k + m + j) = T + k + m + (k + j)), ramp_add]
  push_cast
  ring

theorem trapezoid_step {n : Nat} (late : 2 * k + m + 2 ≤ n) :
    (trapezoid k m T n : K) = 2 * trapezoid k m T (n - 1) - trapezoid k m T (n - 2)
      + (if n - 1 = T then 1 else 0) - (if n - (k + 1) = T then 1 else 0)
      - (if n - (k + m + 1) = T then 1 else 0) + if n - (2 * k + m + 1) = T then 1 else 0 := by
  have second : (n - (k + 1) = T) = (n - 1 = T + k) := propext (by omega)
  have third : (n - (k + m + 1) = T) = (n - 1 = T + k + m) := propext (by omega)
  have fourth : (n - (2 * k + m + 1) = T) = (n - 1 = T + 2 * k + m) := propext (by omega)
  simp only [trapezoid, second, third, fourth]
  rw [ramp_step T (by omega : 2 ≤ n), ramp_step (T + k) (by omega : 2 ≤ n),
    ramp_step (T + k + m) (by omega : 2 ≤ n), ramp_step (T + 2 * k + m) (by omega : 2 ≤ n)]
  ring

theorem Filtered.pulse (filtered : Filtered e k m alp width s)
    (pulse : Pulse e width T A B alp) (late : 2 * k + m + 1 ≤ T) {n : Nat} (inside : n < width) :
    s n = B + A * trapezoid k m T n := by
  induction n using Nat.strongRecOn with
  | ind n ih =>
      -- the first samples are before the pulse, the others follow from the two before them
      by_cases early : n < 2 * k + m + 2
      · rw [filtered.start n inside early, pulse.baseline 0 (by omega) (by omega),
          trapezoid_baseline (by omega)]
        ring
      · have sample (shift : Nat) : discri alp e (n - shift) =
            B - alp * B + A * if n - shift = T then 1 else 0 := by
          rw [discri_pulse pulse (by omega) (by omega), mul_ite, mul_one, mul_zero]
        rw [filtered.step n inside (by omega), ih (n - 1) (by omega) (by omega),
          ih (n - 2) (by omega) (by omega), sample, sample, sample, sample,
          trapezoid_step (by omega : 2 * k + m + 2 ≤ n)]
        ring

structure Trapezoid (s : Nat → K) (width k m T : Nat) (A B : K) : Prop where
  baseline : ∀ n < width, n ≤ T → s n = B
  rise : ∀ j ≤ k, T + j < width → s (T + j) = B + j * A
  top : ∀ n < width, T + k ≤ n → n ≤ T + k + m → s n = B + k * A
  fall : ∀ j ≤ k, T + k + m + j < width → s (T + k + m + j) = B + (k - j) * A
  back : ∀ n < width, T + 2 * k + m ≤ n → s n = B

theorem Filtered.trapezoid (filtered : Filtered e k m alp width s)
    (pulse : Pulse e width T A B alp) (late : 2 * k + m + 1 ≤ T) :
    Trapezoid s width k m T A B := by
  constructor
  · intro n inside early
    rw [filtered.pulse pulse late inside, trapezoid_baseline early]
    ring
  · intro j rising inside
    rw [filtered.pulse pulse late inside, trapezoid_rise rising]
    ring
  · intro n inside lower upper
    rw [filtered.pulse pulse late inside, trapezoid_top lower upper]
    ring
  · intro j falling inside
    rw [filtered.pulse pulse late inside, trapezoid_fall falling]
    ring
  · intro n inside after
    rw [filtered.pulse pulse late inside, trapezoid_end after]
    ring

theorem trapezoidalFilter_empty {e s : CImg K} (empty : s.width = 0) (ks ms : Int) (alp : K)
    (decalage : Nat) : trapezoidalFilter e s ks ms alp decalage = some s := by
  rw [trapezoidalFilter, empty, cimgForInX_empty (by simp), Option.bind_eq_bind, Option.bind_some,
    empty]
  exact cimgForInX_empty (by omega)

theorem trapezoidalFilter_pulse (e s : CImg K) (same : s.width = e.width)
    (pulse : Pulse e.data e.width T A B alp) (late : 2 * k + m + 1 ≤ T) :
    ∃ filtered, trapezoidalFilter e s k m alp (2 * k + m + 2 : Nat) = some filtered ∧
      filtered.width = e.width ∧ Trapezoid filtered.data e.width k m T A B := by
  by_cases empty : e.width = 0
  · refine ⟨s, trapezoidalFilter_empty (by omega) _ _ _ _, same, ?_⟩
    constructor <;> intros <;> omega
  · obtain ⟨filtered, ran, width, samples⟩ :=
      trapezoidalFilter_spec (by omega : 0 < e.width) same k m alp
    exact ⟨filtered, ran, width, samples.trapezoid pulse late⟩

theorem trapezoidalFilter_pulse_doubling :
    ∃ filtered, trapezoidalFilter (⟨20, fun n => if n < 6 then 7 else 7 + 3 * 2 ^ (n - 6)⟩ : CImg Int)
        ⟨20, fun _ => 0⟩ (2 : Nat) (1 : Nat) 2 (2 * 2 + 1 + 2 : Nat) = some filtered ∧
      filtered.width = 20 ∧ Trapezoid filtered.data 20 2 1 6 3 7 := by
  have pulse : Pulse (fun n => if n < 6 then 7 else 7 + 3 * 2 ^ (n - 6) : Nat → Int) 20 6 3 7 2 := by
    constructor
    · intro n _ early
      simp [early]
    · intro n _ late
      simp [Nat.not_lt_of_le late]
  exact trapezoidalFilter_pulse _ _ rfl pulse (by decide)

end RockAMali
