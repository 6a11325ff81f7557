import Mathlib.Algebra.Order.BigOperators.Group.Finset
import Mathlib.Algebra.Order.BigOperators.Group.List
import RockAMali.Superposition

/-!
Frames with several pulses. The filter gives the sum of their trapezoids, and the
energy is the one of the first pulse as long as the others start after its window.
-/

namespace RockAMali

structure PulseAt where
  start : Nat
  height : Int

section Signals

variable {K : Type*} [CommRing K]

def pileUp (alp : K) (B : Int) (pulses : List PulseAt) (n : Nat) : K :=
  B + (pulses.map fun p => if n < p.start then 0 else p.height * alp ^ (n - p.start)).sum

def trapezoids (k m : Nat) (pulses : List PulseAt) (n : Nat) : K :=
  (pulses.map fun p => (p.height : K) * trapezoid k m p.start n).sum

variable {e s : Nat → K} {k m width n : Nat} {alp : K} {B : Int} {pulses : List PulseAt}

theorem pileUp_cons (p : PulseAt) :
    pileUp alp B (p :: pulses) n =
      (if n < p.start then 0 else p.height * alp ^ (n - p.start)) + pileUp alp B pulses n := by
  rw [pileUp, pileUp, List.map_cons, List.sum_cons]
  ring

theorem trapezoids_cons (p : PulseAt) :
    (trapezoids k m (p :: pulses) n : K) =
      p.height * trapezoid k m p.start n + trapezoids k m pulses n := by
  rw [trapezoids, trapezoids, List.map_cons, List.sum_cons]

theorem pileUp_early {first : PulseAt} (after : ∀ p ∈ pulses, n < p.start) :
    pileUp alp B (first :: pulses) n = pileUp alp B [first] n := by
  induction pulses with
  | nil => rfl
  | cons p pulses ih =>
      have early := after p List.mem_cons_self
      have rest := ih fun later member => after later (List.mem_cons_of_mem _ member)
      rw [pileUp_cons] at rest ⊢
      rw [pileUp_cons p, if_pos early, zero_add, rest]

theorem trapezoids_early (after : ∀ p ∈ pulses, n ≤ p.start) :
    (trapezoids k m pulses n : K) = 0 := by
  induction pulses with
  | nil => rfl
  | cons p pulses ih =>
      rw [trapezoids_cons, trapezoid_baseline (after p List.mem_cons_self),
        ih fun later member => after later (List.mem_cons_of_mem _ member), mul_zero, add_zero]

theorem Filtered.pileUp (filtered : Filtered e k m alp width s)
    (samples : ∀ n < width, e n = pileUp alp B pulses n)
    (late : ∀ p ∈ pulses, 2 * k + m + 1 ≤ p.start) {n : Nat} (inside : n < width) :
    s n = B + trapezoids k m pulses n := by
  induction pulses generalizing e s with
  | nil =>
      have level : Pulse e width (2 * k + m + 1) 0 (B : K) alp := by
        constructor
        · intro n bound _
          simp [samples n bound, RockAMali.pileUp]
        · intro n bound _
          simp [samples n bound, RockAMali.pileUp]
      rw [filtered.pulse level le_rfl inside, trapezoids, List.map_nil, List.sum_nil]
      ring
  | cons p pulses ih =>
      obtain ⟨t, lone⟩ := exists_filtered
        (fun n => if n < p.start then (0 : K) else p.height * alp ^ (n - p.start)) k m alp width
      obtain ⟨r, rest⟩ := exists_filtered (RockAMali.pileUp alp B pulses) k m alp width
      have pulse : Pulse (fun n => if n < p.start then (0 : K)
          else p.height * alp ^ (n - p.start)) width p.start p.height 0 alp := by
        constructor
        · intro n _ before
          exact if_pos before
        · intro n _ after
          rw [if_neg (Nat.not_lt_of_le after), zero_add]
      have others := ih rest (fun n _ => rfl)
        fun later member => late later (List.mem_cons_of_mem _ member)
      rw [filtered.superpose lone rest
          (fun n bound => by rw [samples n bound, pileUp_cons]) inside,
        lone.pulse pulse (late p List.mem_cons_self) inside, others, trapezoids_cons]
      ring

end Signals

section Heights

variable {k m n : Nat} {pulses : List PulseAt}

theorem trapezoids_cast : ((trapezoids k m pulses n : Int) : ℚ) = trapezoids k m pulses n := by
  induction pulses with
  | nil => rfl
  | cons p pulses ih =>
      rw [trapezoids_cons, trapezoids_cons, Int.cast_add, ih]
      simp [trapezoid, ramp]

theorem trapezoid_nonneg (k m T n : Nat) : (0 : Int) ≤ trapezoid k m T n := by
  simp only [trapezoid, ramp]
  omega

theorem trapezoid_pos {T : Nat} (after : T < n) (before : n < T + 2 * k + m) (rise : 0 < k) :
    (0 : Int) < trapezoid k m T n := by
  simp only [trapezoid, ramp]
  omega

theorem trapezoids_nonneg (heights : ∀ p ∈ pulses, 0 < p.height) :
    (0 : Int) ≤ trapezoids k m pulses n := by
  apply List.sum_nonneg
  intro value member
  obtain ⟨p, pulse, rfl⟩ := List.mem_map.mp member
  exact mul_nonneg (heights p pulse).le (trapezoid_nonneg k m p.start n)

theorem trapezoids_pos (heights : ∀ p ∈ pulses, 0 < p.height) {p : PulseAt} (pulse : p ∈ pulses)
    (after : p.start < n) (before : n < p.start + 2 * k + m) (rise : 0 < k) :
    (0 : Int) < trapezoids k m pulses n := by
  have own : (0 : Int) < p.height * trapezoid k m p.start n :=
    mul_pos (heights p pulse) (trapezoid_pos after before rise)
  refine lt_of_lt_of_le own (List.single_le_sum ?_ _ (List.mem_map_of_mem pulse))
  intro value member
  obtain ⟨other, otherPulse, rfl⟩ := List.mem_map.mp member
  exact mul_nonneg (heights other otherPulse).le (trapezoid_nonneg k m other.start n)

end Heights

section Energy

variable {filter : CDataFilter ℚ} {width : Nat} {B : Int} {first : PulseAt} {later : List PulseAt}
  {past : List (CImg ℚ)} {out : CImg ℚ}

/-- What the pulses after the first add to the second window. -/
def surplus (filter : CDataFilter ℚ) (first : PulseAt) (later : List PulseAt) : Int :=
  ∑ i ∈ Finset.range (filter.n.toNat + 1),
    trapezoids filter.k.toNat filter.m.toNat later (first.start + filter.q.toNat + i)

theorem discriSignal_pileUp {alp : ℚ} (after : ∀ p ∈ later, first.start < p.start) {n : Nat}
    (before : n ≤ first.start) :
    discriSignal alp (pileUp alp B (first :: later)) n =
      discriSignal alp (pileUp alp B [first]) n := by
  have same (i : Nat) (bound : i ≤ first.start) :
      pileUp alp B (first :: later) i = pileUp alp B [first] i :=
    pileUp_early fun p member => Nat.lt_of_le_of_lt bound (after p member)
  rw [discriSignal, discriSignal, discri, discri, same n before, same (n - 1) (by omega)]

theorem pileUp_stored
    (ideal : IdealFrame filter ⟨width, pileUp filter.alpha B [first]⟩ first.start first.height B)
    (delayed : 0 ≤ filter.Tm) (after : ∀ p ∈ later, first.start < p.start)
    (frames : ∀ frame ∈ past, frame.width = width) (memory : Nat → Nat → ℚ)
    (room : 0 < out.width) :
    storedEnergy memory filter past ⟨width, pileUp filter.alpha B (first :: later)⟩ out =
      some ((((filter.n + 1) * (filter.k * first.height) + surplus filter first later : Int) : ℚ) /
        filter.n) := by
  obtain ⟨k, rise⟩ := Int.eq_ofNat_of_zero_le (ideal.usable delayed).k
  obtain ⟨m, flat⟩ := Int.eq_ofNat_of_zero_le (ideal.usable delayed).m
  have positive := ideal.number
  obtain ⟨number, count⟩ := Int.eq_ofNat_of_zero_le (by omega : 0 ≤ filter.n)
  have delay := ideal.delay
  obtain ⟨qDelay, shift⟩ := Int.eq_ofNat_of_zero_le (by omega : 0 ≤ filter.q)
  have trigger := ideal.trigger
  have windows := ideal.room
  have top := ideal.top
  have within : (first.start : Int) + filter.q + filter.n < width := ideal.inside
  -- up to the trigger the signal is the one of the first pulse alone
  have low : ∀ n < first.start,
      discriSignal filter.alpha (pileUp filter.alpha B (first :: later)) n < filter.threshold := by
    intro n before
    rw [discriSignal_pileUp after before.le]
    exact ideal.signal_low before
  have reached : filter.threshold ≤
      discriSignal filter.alpha (pileUp filter.alpha B (first :: later)) first.start := by
    rw [discriSignal_pileUp after le_rfl]
    exact ideal.signal_reached
  obtain ⟨image, sameWidth, filtered, stored⟩ :=
    @storedEnergy_triggered filter k m past ⟨width, pileUp filter.alpha B (first :: later)⟩ out
      (ideal.usable delayed) rise flat frames memory room first.start ideal.trigger_inside low
      reached
  have starts : ∀ p ∈ first :: later, first.start ≤ p.start :=
    List.forall_mem_cons.mpr ⟨le_rfl, fun p member => (after p member).le⟩
  have late : ∀ p ∈ first :: later, 2 * k + m + 1 ≤ p.start :=
    fun p member => le_trans (by omega) (starts p member)
  have samples : ∀ n < image.width,
      image.data n = (B + trapezoids k m (first :: later) n : Int) := by
    intro n inside
    rw [filtered.pileUp (fun _ _ => rfl) late (by omega), Int.cast_add, trapezoids_cast]
  have inside : first.start + qDelay + number < image.width := by
    rw [sameWidth]
    show first.start + qDelay + number < width
    omega
  have term : ∀ i ∈ Finset.range (number + 1),
      ((B + trapezoids k m (first :: later) (first.start + qDelay + i) : Int) -
        (B + trapezoids k m (first :: later) (first.start - number + i))) =
      k * first.height + trapezoids k m later (first.start + qDelay + i) := by
    intro i member
    have bound := Finset.mem_range.mp member
    have base : (trapezoids k m (first :: later) (first.start - number + i) : Int) = 0 :=
      trapezoids_early fun p member => le_trans (by omega) (starts p member)
    rw [base, trapezoids_cons, trapezoid_top (by omega) (by omega), Int.cast_id]
    ring
  rw [stored, count, shift, calculationEnergy_whole (by omega) (by omega) inside samples,
    Finset.sum_congr rfl term, Finset.sum_add_distrib, Finset.sum_const, Finset.card_range, surplus,
    rise, flat, count, shift]
  simp only [Int.toNat_natCast, nsmul_eq_mul, Nat.cast_add, Nat.cast_one, Int.cast_natCast]

theorem surplus_eq_zero_iff
    (ideal : IdealFrame filter ⟨width, pileUp filter.alpha B [first]⟩ first.start first.height B)
    (after : ∀ p ∈ later, first.start < p.start) (heights : ∀ p ∈ later, 0 < p.height) :
    surplus filter first later = 0 ↔ ∀ p ∈ later, first.start + filter.q + filter.n ≤ p.start := by
  have rise := ideal.rise
  have flat := ideal.flat
  have positive := ideal.number
  have delay := ideal.delay
  have top := ideal.top
  constructor
  · intro none p pulse
    by_contra close
    have next := after p pulse
    have last : (0 : Int) < trapezoids filter.k.toNat filter.m.toNat later
        (first.start + filter.q.toNat + filter.n.toNat) :=
      trapezoids_pos heights pulse (by omega) (by omega) (by omega)
    have whole : (0 : Int) < surplus filter first later := by
      refine lt_of_lt_of_le last (Finset.single_le_sum
        (f := fun i => trapezoids filter.k.toNat filter.m.toNat later
          (first.start + filter.q.toNat + i)) ?_ (Finset.self_mem_range_succ _))
      intro i _
      exact trapezoids_nonneg heights
    omega
  · intro far
    apply Finset.sum_eq_zero
    intro i member
    have bound := Finset.mem_range.mp member
    apply trapezoids_early
    intro p pulse
    have start := far p pulse
    omega

end Energy

end RockAMali
