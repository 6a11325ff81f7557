import RockAMali.TrapezoidHistory

/-!
The filter is linear and its recursion has one solution, so that the energy of a
frame comes from the parts that the frame is a sum of.
-/

namespace RockAMali

section Filter

variable {K : Type*} [CommRing K] {e f g s t r : Nat → K} {k m width : Nat} {alp : K}

theorem Filtered.unique (filtered : Filtered e k m alp width s)
    (other : Filtered e k m alp width t) {n : Nat} (inside : n < width) : s n = t n := by
  induction n using Nat.strongRecOn with
  | ind n ih =>
      by_cases early : n < 2 * k + m + 2
      · rw [filtered.start n inside early, other.start n inside early]
      · rw [filtered.step n inside (by omega), other.step n inside (by omega),
          ih (n - 1) (by omega) (by omega), ih (n - 2) (by omega) (by omega)]

theorem Filtered.congr (filtered : Filtered e k m alp width s)
    (same : ∀ n < width, e n = f n) : Filtered f k m alp width s := by
  have signal (n : Nat) (inside : n < width) : discri alp e n = discri alp f n := by
    rw [discri, discri, same n inside, same (n - 1) (by omega)]
  constructor
  · intro n inside early
    rw [filtered.start n inside early, same 0 (by omega)]
  · intro n inside late
    rw [filtered.step n inside late, signal (n - 1) (by omega), signal (n - (k + 1)) (by omega),
      signal (n - (k + m + 1)) (by omega), signal (n - (2 * k + m + 1)) (by omega)]

theorem Filtered.add (filtered : Filtered e k m alp width s)
    (other : Filtered f k m alp width t) :
    Filtered (fun n => e n + f n) k m alp width fun n => s n + t n := by
  constructor
  · intro n inside early
    rw [filtered.start n inside early, other.start n inside early]
  · intro n inside late
    rw [filtered.step n inside late, other.step n inside late]
    simp only [discri]
    ring

theorem exists_filtered (e : Nat → K) (k m : Nat) (alp : K) (width : Nat) :
    ∃ s, Filtered e k m alp width s := by
  by_cases empty : width = 0
  · subst empty
    exact ⟨e, fun n inside => absurd inside (Nat.not_lt_zero n),
      fun n inside => absurd inside (Nat.not_lt_zero n)⟩
  · obtain ⟨filtered, _, _, samples⟩ :=
      @trapezoidalFilter_spec K _ ⟨width, e⟩ ⟨width, e⟩ (Nat.pos_of_ne_zero empty) rfl k m alp
    exact ⟨filtered.data, samples⟩

theorem Filtered.superpose (filtered : Filtered e k m alp width s)
    (left : Filtered f k m alp width t) (right : Filtered g k m alp width r)
    (sum : ∀ n < width, e n = f n + g n) {n : Nat} (inside : n < width) : s n = t n + r n :=
  (filtered.congr sum).unique (left.add right) inside

end Filter

section Energy

variable {filter : CDataFilter ℚ} {k m : Nat} {past : List (CImg ℚ)} {input out : CImg ℚ}

theorem storedEnergy_signals (usable : filter.Usable) (rise : filter.k = k) (flat : filter.m = m)
    (positive : 0 < input.width) (frames : ∀ frame ∈ past, frame.width = input.width)
    (memory : Nat → Nat → ℚ) (room : 0 < out.width) :
    ∃ trapezoid s : CImg ℚ, trapezoid.width = input.width ∧
      Filtered input.data k m filter.alpha input.width trapezoid.data ∧
      s.width = input.width ∧
      (∀ n < input.width, s.data n = discriSignal filter.alpha input.data n) ∧
      storedEnergy memory filter past input out =
        (calculTi s filter.threshold).bind fun Ti =>
          calculationEnergy trapezoid Ti filter.n filter.q := by
  obtain ⟨object, ran, width, signal⟩ :=
    scratch_runs usable positive (newProcessor_widths input.width) memory
  obtain ⟨trapezoid, filled, computed⟩ := Option.bind_eq_some_iff.mp ran
  have fits : CDataProcessorTrapezoid.Fits { newProcessor with trapezoid } input.width :=
    fun assigned => absurd assigned Bool.false_ne_true
  have kept := (calculDiscri_spec positive fits computed).2.2
  obtain ⟨same, filtered, sameWidth, samples⟩ := @trapezoidalFilter_spec ℚ _ input
    ⟨input.width, memory 0⟩ positive rfl k m filter.alpha
  rw [filter.setup, rise, flat] at filled
  cases filled.symm.trans filtered
  refine ⟨trapezoid, object.s, sameWidth, samples, width, signal, ?_⟩
  have fresh : storedEnergy memory filter past input out =
      storedEnergy memory filter [] input out :=
    storedEnergy_congr frames (fun _ member => absurd member List.not_mem_nil) rfl memory memory
      room room
  rw [fresh, storedEnergy_eq memory [] input room, history, Option.bind_some, ran, Option.bind_some,
    CDataProcessorTrapezoid.energy, kept]
  simp only [Option.bind_eq_bind, Option.map_eq_bind, Option.bind_assoc, Function.comp_def,
    Option.bind_some, Option.bind_fun_some]

theorem storedEnergy_triggered (usable : filter.Usable) (rise : filter.k = k) (flat : filter.m = m)
    (frames : ∀ frame ∈ past, frame.width = input.width) (memory : Nat → Nat → ℚ)
    (room : 0 < out.width) {T : Nat} (inside : T < input.width)
    (low : ∀ n < T, discriSignal filter.alpha input.data n < filter.threshold)
    (reached : filter.threshold ≤ discriSignal filter.alpha input.data T) :
    ∃ trapezoid : CImg ℚ, trapezoid.width = input.width ∧
      Filtered input.data k m filter.alpha input.width trapezoid.data ∧
      storedEnergy memory filter past input out =
        calculationEnergy trapezoid T filter.n filter.q := by
  obtain ⟨trapezoid, s, width, filtered, sameS, signal, stored⟩ :=
    storedEnergy_signals usable rise flat (Nat.zero_lt_of_lt inside) frames memory room
  have found : calculTi s filter.threshold = some (T : Int) := by
    apply calculTi_spec (by omega)
    · intro n before
      rw [signal n (by omega)]
      exact low n before
    · rw [signal T inside]
      exact reached
  exact ⟨trapezoid, width, filtered, by rw [stored, found, Option.bind_some]⟩

theorem kernelCPUTrapeze_of_stored (usable : filter.Usable)
    (frames : ∀ frame ∈ past, frame.width = input.width) {memory : Nat → Nat → ℚ} {T : Nat}
    (inside : T < input.width)
    (low : ∀ n < T, discriSignal filter.alpha input.data n < filter.threshold)
    (reached : filter.threshold ≤ discriSignal filter.alpha input.data T) {E : ℚ}
    (stored : storedEnergy memory filter past input out = some E) :
    ∃ object after written, history memory filter past newProcessor = some object ∧
      kernelCPUTrapeze memory filter object input out = some (after, (T : Int), written) ∧
      written.read 0 = some E := by
  obtain ⟨object, ran, stored⟩ := Option.bind_eq_some_iff.mp stored
  obtain ⟨⟨after, Ti, written⟩, kernel, stored⟩ := Option.bind_eq_some_iff.mp stored
  have own := history_widths frames (newProcessor_widths input.width) ran
  obtain ⟨other, scratch, width, signal⟩ :=
    scratch_runs usable (Nat.zero_lt_of_lt inside) own memory
  have trigger : calculTi other.s filter.threshold = some (T : Int) := by
    apply calculTi_spec (by omega)
    · intro n before
      rw [signal n (by omega)]
      exact low n before
    · rw [signal T inside]
      exact reached
  have found : Ti = T := by
    have energy := kernel
    rw [kernelCPUTrapeze_scratch, scratch, Option.bind_some] at energy
    obtain ⟨pair, summed, same⟩ := Option.bind_eq_some_iff.mp energy
    obtain ⟨_, _, same⟩ := Option.map_eq_some_iff.mp same
    rw [CDataProcessorTrapezoid.energy, trigger, Option.bind_eq_bind, Option.bind_some] at summed
    obtain ⟨_, _, pairs⟩ := Option.bind_eq_some_iff.mp summed
    cases pairs
    exact (congrArg (fun output => output.2.1) same).symm
  exact ⟨object, after, written, ran, found ▸ kernel, stored⟩

theorem calculationEnergy_whole {image : CImg ℚ} {T number qDelay : Nat} {values : Nat → Int}
    (positive : 0 < number) (room : number ≤ T) (inside : T + qDelay + number < image.width)
    (whole : ∀ n < image.width, image.data n = values n) :
    calculationEnergy image T number qDelay =
      some (((∑ i ∈ Finset.range (number + 1),
        (values (T + qDelay + i) - values (T - number + i)) : Int) : ℚ) / number) := by
  have base : windowSum image (T - number) T =
      some (∑ i ∈ Finset.range (number + 1), values (T - number + i)) := by
    have sum := windowSum_spec (Nat.sub_le T number) (by omega) fun i _ upper => whole i (by omega)
    rw [Finset.sum_Ico_eq_sum_range, (by omega : T + 1 - (T - number) = number + 1),
      Nat.cast_sub room] at sum
    exact sum
  have peak : windowSum image (T + qDelay) (T + qDelay + number) =
      some (∑ i ∈ Finset.range (number + 1), values (T + qDelay + i)) := by
    have sum := windowSum_spec (Nat.le_add_right (T + qDelay) number) inside
      fun i _ upper => whole i (by omega)
    rw [Finset.sum_Ico_eq_sum_range,
      (by omega : T + qDelay + number + 1 - (T + qDelay) = number + 1), Nat.cast_add,
      Nat.cast_add] at sum
    exact sum
  rw [calculationEnergy, base, peak, Finset.sum_sub_distrib]
  simp only [Option.bind_eq_bind, Option.bind_some]
  rw [if_neg (by omega), Int.cast_natCast]

end Energy

section Ideal

variable {filter : CDataFilter ℚ} {frame : CImg ℚ} {T : Nat} {A B : Int}

theorem IdealFrame.usable (ideal : IdealFrame filter frame T A B) (delayed : 0 ≤ filter.Tm) :
    filter.Usable := by
  have rise := ideal.rise
  have number := ideal.number
  exact ⟨by omega, ideal.flat, by omega, delayed⟩

theorem IdealFrame.signal (ideal : IdealFrame filter frame T A B) {n : Nat} (later : n ≠ 0)
    (inside : n < frame.width) :
    discriSignal filter.alpha frame.data n =
      B * (1 - filter.alpha) + if n = T then (A : ℚ) else 0 := by
  have trigger := ideal.trigger
  have rise := ideal.rise
  have flat := ideal.flat
  rw [discriSignal, if_neg later, discri_pulse ideal.pulse (by omega) inside]
  ring

theorem IdealFrame.trigger_inside (ideal : IdealFrame filter frame T A B) : T < frame.width := by
  have inside := ideal.inside
  have number := ideal.number
  have delay := ideal.delay
  have rise := ideal.rise
  omega

theorem IdealFrame.trigger_ne (ideal : IdealFrame filter frame T A B) : T ≠ 0 := by
  have trigger := ideal.trigger
  have rise := ideal.rise
  have flat := ideal.flat
  omega

theorem IdealFrame.signal_low (ideal : IdealFrame filter frame T A B) {n : Nat} (before : n < T) :
    discriSignal filter.alpha frame.data n < filter.threshold := by
  by_cases first : n = 0
  · rw [discriSignal, if_pos first]
    exact ideal.positive
  · rw [ideal.signal first (before.trans ideal.trigger_inside), if_neg before.ne, add_zero]
    exact ideal.low

theorem IdealFrame.signal_reached (ideal : IdealFrame filter frame T A B) :
    filter.threshold ≤ discriSignal filter.alpha frame.data T := by
  rw [ideal.signal ideal.trigger_ne ideal.trigger_inside, if_pos rfl, add_comm]
  exact ideal.reached

end Ideal

end RockAMali
