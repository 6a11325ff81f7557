import RockAMali.PeakProcessor

/-!
`CDataProcessor_Max_Min::Process` on any frame of samples of type
`unsigned int`, which it converts to `int` and back. Two of its searches leave
their member as it was when they stop at the first sample.
-/

namespace RockAMali

instance sampleOrder : LinearOrder UInt32 where
  le_refl := UInt32.le_refl
  le_trans _ _ _ := UInt32.le_trans
  le_antisymm _ _ := UInt32.le_antisymm
  le_total := UInt32.le_total
  lt_iff_le_not_ge _ _ := Std.LawfulOrderLT.lt_iff _ _
  toDecidableLE _ _ := inferInstance
  min_def _ _ := rfl
  max_def _ _ := rfl

namespace CDataProcessorMaxMin

/-- 36.8% of the height above the base, where `convert` takes a `double` to an `int`. -/
def level (convert : ℚ → Int32) (least greatest : UInt32) : Int32 :=
  let base : Int32 := least.toInt32
  let ampli : Int32 := (greatest - base.toUInt32).toInt32
  convert ((ampli.toInt : ℚ) * 0.368 + base.toInt)

def process32 (convert : ℚ → Int32) (in_ : CImg UInt32) (members : CDataProcessorMaxMin) :
    Option CDataProcessorMaxMin := do
  let least ← in_.min
  let greatest ← in_.max
  let base : Int32 := least.toInt32
  let ampli : Int32 := (greatest - base.toUInt32).toInt32
  let Itrig ← search in_ (fun sample => sample = base.toUInt32) (fun i => i) 0 members.Ti
  let Imax ← search in_ (fun sample => sample < (ampli + base).toUInt32) (fun i => i + 1) 0
    members.Ai
  let th := level convert least greatest
  let Ith ← search in_ (fun sample => th.toUInt32 < sample) (fun i => i + 1) Imax Imax
  some ⟨ampli.toInt, base.toInt, Imax, Ith, Itrig, th.toInt⟩

theorem top_eq (least greatest : UInt32) :
    ((greatest - least).toInt32 + least.toInt32).toUInt32 = greatest := by
  rw [Int32.toUInt32_add, UInt32.toUInt32_toInt32, UInt32.toUInt32_toInt32, UInt32.sub_add_cancel]

section Process

variable {convert : ℚ → Int32} {in_ : CImg UInt32} {members found : CDataProcessorMaxMin}
  {least greatest : UInt32}

theorem process32_eq (low : in_.min = some least) (high : in_.max = some greatest) :
    process32 convert in_ members = (do
      let Itrig ← search in_ (fun sample => sample = least) (fun i => i) 0 members.Ti
      let Imax ← search in_ (fun sample => sample < greatest) (fun i => i + 1) 0 members.Ai
      let Ith ← search in_ (fun sample => (level convert least greatest).toUInt32 < sample)
        (fun i => i + 1) Imax Imax
      some ⟨(greatest - least).toInt32.toInt, least.toInt32.toInt, Imax, Ith, Itrig,
        (level convert least greatest).toInt⟩) := by
  simp only [process32, low, high, Option.bind_eq_bind, Option.bind_some,
    UInt32.toUInt32_toInt32, top_eq]

theorem process32_cases (ran : process32 convert in_ members = some found) :
    ∃ least greatest, in_.min = some least ∧ in_.max = some greatest ∧
      search in_ (fun sample => sample = least) (fun i => i) 0 members.Ti = some found.Ti ∧
      search in_ (fun sample => sample < greatest) (fun i => i + 1) 0 members.Ai = some found.Ai ∧
      search in_ (fun sample => (level convert least greatest).toUInt32 < sample) (fun i => i + 1)
        found.Ai found.Ai = some found.Hi ∧
      found = ⟨(greatest - least).toInt32.toInt, least.toInt32.toInt, found.Ai, found.Hi, found.Ti,
        (level convert least greatest).toInt⟩ := by
  cases low : in_.min with
  | none => simp [process32, low] at ran
  | some least =>
      cases high : in_.max with
      | none => simp [process32, low, high] at ran
      | some greatest =>
          rw [process32_eq low high] at ran
          obtain ⟨Itrig, trigger, ran⟩ := Option.bind_eq_some_iff.mp ran
          obtain ⟨Imax, top, ran⟩ := Option.bind_eq_some_iff.mp ran
          obtain ⟨Ith, decayed, ran⟩ := Option.bind_eq_some_iff.mp ran
          cases ran
          exact ⟨least, greatest, rfl, rfl, trigger, top, decayed, rfl⟩

theorem process32_again (ran : process32 convert in_ members = some found) :
    process32 convert in_ found = some found := by
  obtain ⟨least, greatest, low, high, trigger, top, decayed, same⟩ := process32_cases ran
  simp only [process32_eq low high, search_again trigger, search_again top, decayed,
    Option.bind_eq_bind, Option.bind_some]
  exact congrArg some same.symm

end Process

structure Analysed (in_ : CImg UInt32) (found : CDataProcessorMaxMin) (top stop : Nat) : Prop where
  peak : found.Ai = top
  inside : top < in_.width
  greatest : ∀ n < in_.width, in_.data n ≤ in_.data top
  first : ∀ n < top, in_.data n < in_.data top
  decayed : found.Hi = stop
  order : top ≤ stop
  within : stop ≤ in_.width
  above : ∀ n, top ≤ n → n < stop → (Int32.ofInt found.threshold).toUInt32 < in_.data n
  below : stop < in_.width → in_.data stop ≤ (Int32.ofInt found.threshold).toUInt32

def Determined (convert : ℚ → Int32) (in_ : CImg UInt32) : Prop :=
  ∀ members members' : CDataProcessorMaxMin, ∃ found top stop,
    process32 convert in_ members = some found ∧ process32 convert in_ members' = some found ∧
      Analysed in_ found top stop

/-- A frame that starts at its minimum, rises above it, and falls to the
threshold after a maximum. -/
structure Peaked (convert : ℚ → Int32) (in_ : CImg UInt32) : Prop where
  start : ∀ n < in_.width, in_.data 0 ≤ in_.data n
  rise : ∃ n < in_.width, in_.data 0 < in_.data n
  decay : ∃ top stop, top ≤ stop ∧ stop < in_.width ∧ (∀ n < in_.width, in_.data n ≤ in_.data top) ∧
    in_.data stop ≤ (level convert (in_.data 0) (in_.data top)).toUInt32

section Total

variable {convert : ℚ → Int32} {in_ : CImg UInt32} {members found : CDataProcessorMaxMin}
  {least greatest : UInt32}

theorem top_of_stops {top : Nat} (high : in_.max = some greatest)
    (stops : Stops in_ (fun sample => decide (sample < greatest)) 0 top) :
    in_.data top = greatest ∧ (∀ n < in_.width, in_.data n ≤ in_.data top) ∧
      ∀ n < top, in_.data n < in_.data top := by
  obtain ⟨_, above⟩ := CImg.max_spec high
  have reached := of_decide_eq_false stops.stopped
  have same : in_.data top = greatest := le_antisymm (above top stops.inside) (not_lt.mp reached)
  rw [same]
  exact ⟨rfl, above, fun n before => of_decide_eq_true (stops.passes n (Nat.zero_le n) before)⟩

theorem peaked_of_determined (determined : Determined convert in_) : Peaked convert in_ := by
  obtain ⟨found, _, _, ran, ran', _⟩ := determined ⟨0, 0, 0, 0, 0, 0⟩ ⟨0, 0, 0, 0, 1, 0⟩
  obtain ⟨least, greatest, low, high, trigger, top, decayed, _⟩ := process32_cases ran
  obtain ⟨least', _, low', _, trigger', _⟩ := process32_cases ran'
  obtain rfl : least = least' := Option.some_inj.mp (low.symm.trans low')
  obtain ⟨_, below⟩ := CImg.min_spec low
  obtain ⟨stop, stops, Ti⟩ := search_some trigger
  obtain ⟨stop', stops', Ti'⟩ := search_some trigger'
  -- a search that stops at once leaves `Ti`, which the two calls have different
  have base : in_.data 0 = least := by
    by_contra other
    have atOnce {first : Nat}
        (ends : Stops in_ (fun sample => decide (sample = least)) 0 first) : 0 = first := by
      by_contra late
      exact other (of_decide_eq_true (ends.passes 0 (Nat.le_refl 0) (by omega)))
    rw [if_pos (atOnce stops)] at Ti
    rw [if_pos (atOnce stops'), Ti] at Ti'
    cases Ti'
  have start : ∀ n < in_.width, in_.data 0 ≤ in_.data n := by
    rw [base]
    exact below
  have rise : in_.data 0 < in_.data stop := by
    refine lt_of_le_of_ne (start stop stops.inside) ?_
    rw [base]
    exact fun same => of_decide_eq_false stops.stopped same.symm
  obtain ⟨peak, peaks, Ai⟩ := search_some top
  obtain ⟨same, above, _⟩ := top_of_stops high peaks
  have later : ¬0 = peak := by
    rintro rfl
    exact absurd rise (not_lt_of_ge (above stop stops.inside))
  have place : found.Ai = peak := by
    rw [if_neg later] at Ai
    omega
  rw [place] at decayed
  obtain ⟨last, lasts, _⟩ := search_some decayed
  refine ⟨start, ⟨stop, stops.inside, rise⟩, peak, last, lasts.order, lasts.inside, above, ?_⟩
  rw [base, same]
  exact not_lt.mp (of_decide_eq_false lasts.stopped)

theorem determined_of_peaked (peaked : Peaked convert in_) : Determined convert in_ := by
  obtain ⟨start, ⟨rising, risingInside, rise⟩, peak, last, order, inside, above, decay⟩ := peaked
  have low : in_.min = some (in_.data 0) := CImg.min_eq (by omega) start
  have high : in_.max = some (in_.data peak) := CImg.max_eq (by omega) above
  obtain ⟨trigger, _, triggers⟩ : ∃ stop ≤ rising,
      Stops in_ (fun sample => decide (sample = in_.data 0)) 0 stop :=
    exists_stops risingInside (Nat.zero_le _) (decide_eq_false rise.ne')
  obtain ⟨top, before, tops⟩ : ∃ stop ≤ peak,
      Stops in_ (fun sample => decide (sample < in_.data peak)) 0 stop :=
    exists_stops (by omega) (Nat.zero_le _) (decide_eq_false (lt_irrefl _))
  obtain ⟨same, greatest, first⟩ := top_of_stops high tops
  obtain ⟨stop, _, stops⟩ : ∃ stop ≤ last, Stops in_ (fun sample =>
      decide ((level convert (in_.data 0) (in_.data peak)).toUInt32 < sample)) top stop :=
    exists_stops inside (by omega) (decide_eq_false (not_lt_of_ge decay))
  have laterTrigger : ¬0 = trigger := by
    rintro rfl
    exact of_decide_eq_false triggers.stopped rfl
  have laterTop : ¬0 = top := by
    rintro rfl
    exact absurd (rise.trans_le (above rising risingInside)) (same.symm ▸ lt_irrefl _)
  have Itrig (Ti : Int) : search in_ (fun sample => decide (sample = in_.data 0)) (fun i => i) 0 Ti =
      some ((trigger - 1 : Nat) : Int) := by
    have ended : search in_ (fun sample => decide (sample = in_.data 0)) (fun i => i) (0 : Nat) Ti =
      _ := search_stops triggers
    rwa [if_neg laterTrigger] at ended
  have Imax (Ai : Int) : search in_ (fun sample => decide (sample < in_.data peak))
      (fun i => i + 1) 0 Ai = some (top : Int) := by
    rw [← Nat.cast_zero, search_stops tops, if_neg laterTop, Option.some_inj]
    omega
  have Ith : search in_ (fun sample =>
      decide ((level convert (in_.data 0) (in_.data peak)).toUInt32 < sample)) (fun i => i + 1) top
        top = some (stop : Int) := by
    rw [search_stops stops, Option.some_inj]
    split
    · omega
    · have := stops.order
      omega
  intro members members'
  refine ⟨⟨(in_.data peak - in_.data 0).toInt32.toInt, (in_.data 0).toInt32.toInt, top, stop,
    (trigger - 1 : Nat), (level convert (in_.data 0) (in_.data peak)).toInt⟩, top, stop, ?_, ?_, ?_⟩
  · simp only [process32_eq low high, Itrig, Imax, Ith, Option.bind_eq_bind, Option.bind_some]
  · simp only [process32_eq low high, Itrig, Imax, Ith, Option.bind_eq_bind, Option.bind_some]
  · refine ⟨rfl, tops.inside, greatest, first, rfl, stops.order, stops.inside.le, ?_, ?_⟩
    · intro n lower upper
      rw [Int32.ofInt_toInt]
      exact of_decide_eq_true (stops.passes n lower upper)
    · intro _
      rw [Int32.ofInt_toInt]
      exact not_lt.mp (of_decide_eq_false stops.stopped)

end Total

theorem determined_iff (convert : ℚ → Int32) (in_ : CImg UInt32) :
    Determined convert in_ ↔ Peaked convert in_ :=
  ⟨peaked_of_determined, determined_of_peaked⟩

def truncate (value : ℚ) : Int32 := Int32.ofInt (toInt value)

/-- A flat frame, one whose first sample is its maximum, and one that does not decay. -/
theorem determined_fails :
    ¬Determined truncate ⟨3, fun _ => 5⟩ ∧
      ¬Determined truncate ⟨3, fun n => if n = 1 then 0 else 9⟩ ∧
      ¬Determined truncate ⟨2, fun n => if n = 1 then 1 else 0⟩ := by
  refine ⟨?_, ?_, ?_⟩
  · intro determined
    obtain ⟨_, _, rise⟩ := (peaked_of_determined determined).rise
    exact lt_irrefl _ rise
  · intro determined
    exact absurd ((peaked_of_determined determined).start 1 (by decide)) (by decide)
  · intro determined
    obtain ⟨top, stop, order, inside, above, decay⟩ := (peaked_of_determined determined).decay
    have first : ¬(1 : UInt32) ≤ 0 := by decide
    obtain rfl : top = 1 := by
      have last := above 1 (by decide)
      by_contra other
      simp [other] at last
    obtain rfl : stop = 1 := by
      simp only at inside
      omega
    exact absurd decay (by decide +kernel)

end CDataProcessorMaxMin

end RockAMali
