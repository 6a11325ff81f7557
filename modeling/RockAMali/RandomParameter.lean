import Mathlib.Data.Int.Basic
import RockAMali.Library.MachineInt

/-!
The random pulse parameters of `CDataGenerator_PAC.hpp`: limits about a loaded
value, kept as `unsigned int`, and a draw between them modulo 2^32.
-/

namespace RockAMali

open MachineInt

structure Limits where
  min : UInt32
  max : UInt32

/-- The limits of an `int` member, by its noise or by half of it. -/
def limits (value noise : Int32) : Limits where
  min := (value - noise).toUInt32
  max := (value + noise).toUInt32

/-- The limits of a member that is a `double`, which holds a loaded `int`. -/
def limitsTime (value : Int) (noise : Int32) : Limits where
  min := UInt32.ofInt (value - noise.toInt)
  max := UInt32.ofInt (value + noise.toInt)

/-- `rand()%(max-min+1)+min`, undefined for a modulus of zero. -/
def draw (limits : Limits) (rand : UInt32) : Option UInt32 :=
  let modulus := limits.max - limits.min + 1
  if modulus = 0 then none else some (rand % modulus + limits.min)

structure Signal where
  nbTB : Int32
  nbTA : Int32
  tau : Int32
  tauM : Int32
  A : Int32
  B : Int32

structure SignalNoise where
  A : Int32
  B : Int32
  tau : Int32
  tB : Int32
  tA : Int32
  tauM : Int32

structure PeakRndLimits where
  amp : Limits
  bl : Limits
  tau : Limits
  tB : Limits
  tA : Limits

structure CDataGeneratorPeakRnd where
  nbTB : Int32
  nbTA : Int32
  A : Int32
  B : Int32
  tau : Int

namespace CDataGeneratorPeakRnd

/-- The constructor of `CDataGenerator_Peak`, after which the peak time is a position. -/
def construct (signal : Signal) : CDataGeneratorPeakRnd where
  nbTB := signal.nbTB
  nbTA := signal.nbTA + signal.nbTB
  A := signal.A
  B := signal.B
  tau := signal.tau.toInt

def readParameters (generator : CDataGeneratorPeakRnd) (noise : SignalNoise) : PeakRndLimits where
  amp := limits generator.A (noise.A / 2)
  bl := limits generator.B (noise.B / 2)
  tau := limitsTime generator.tau (noise.tau / 2)
  tB := limits generator.nbTB noise.tB
  tA := limits (generator.nbTA - generator.nbTB) (noise.tA / 2)

def randomParameter (limits : PeakRndLimits) (rand : Nat → UInt32) :
    Option CDataGeneratorPeakRnd := do
  let tau ← draw limits.tau (rand 0)
  let A ← draw limits.amp (rand 1)
  let B ← draw limits.bl (rand 2)
  let nbTB ← draw limits.tB (rand 3)
  let nbTA ← draw limits.tA (rand 4)
  some {
    nbTB := nbTB.toInt32
    nbTA := nbTA.toInt32 + nbTB.toInt32
    A := A.toInt32
    B := B.toInt32
    tau := tau.toNat }

end CDataGeneratorPeakRnd

structure ExpRndLimits where
  amp : Limits
  bl : Limits
  tau : Limits
  tB : Limits
  tauM : Limits

structure CDataGeneratorExpRnd where
  nbTB : Int32
  A : Int32
  B : Int32
  tau : Int
  tauM : Int

namespace CDataGeneratorExpRnd

def construct (signal : Signal) : CDataGeneratorExpRnd where
  nbTB := signal.nbTB
  A := signal.A
  B := signal.B
  tau := signal.tau.toInt
  tauM := signal.tauM.toInt

def readParameters (generator : CDataGeneratorExpRnd) (noise : SignalNoise) : ExpRndLimits where
  amp := limits generator.A (noise.A / 2)
  bl := limits generator.B (noise.B / 2)
  tau := limitsTime generator.tau (noise.tau / 2)
  tB := limits generator.nbTB noise.tB
  tauM := limitsTime generator.tauM (noise.tauM / 2)

def randomParameter (limits : ExpRndLimits) (rand : Nat → UInt32) :
    Option CDataGeneratorExpRnd := do
  let tau ← draw limits.tau (rand 0)
  let A ← draw limits.amp (rand 1)
  let B ← draw limits.bl (rand 2)
  let nbTB ← draw limits.tB (rand 3)
  let tauM ← draw limits.tauM (rand 4)
  some {
    nbTB := nbTB.toInt32
    A := A.toInt32
    B := B.toInt32
    tau := tau.toNat
    tauM := tauM.toNat }

end CDataGeneratorExpRnd

theorem limits_eq (value noise : Int32) : limits value noise = limitsTime value.toInt noise := by
  simp only [limits, limitsTime, Int.sub_eq_add_neg, UInt32.ofInt_add, UInt32.ofInt_neg,
    ofInt_toInt, Int32.toUInt32_add, Int32.toUInt32_sub, UInt32.sub_eq_add_neg]

def drawn (value noise : Int) (rand : UInt32) : Int :=
  value - noise + (rand.toNat % (2 * noise.toNat + 1) : Nat)

theorem drawn_bounds (value : Int) {noise : Int} (nonneg : 0 ≤ noise) (rand : UInt32) :
    value - noise ≤ drawn value noise rand ∧ drawn value noise rand ≤ value + noise := by
  have part := Nat.mod_lt rand.toNat (by omega : 2 * noise.toNat + 1 > 0)
  simp only [drawn]
  omega

theorem drawn_zero (value noise : Int) : drawn value noise 0 = value - noise := by
  simp [drawn]

theorem limits_span (value : Int) {noise : Int32} (nonneg : 0 ≤ noise.toInt) :
    ((limitsTime value noise).max - (limitsTime value noise).min + 1).toNat =
      2 * noise.toInt.toNat + 1 := by
  have twice : (limitsTime value noise).max - (limitsTime value noise).min + 1 =
      noise.toUInt32 + noise.toUInt32 + 1 := by
    simp only [limitsTime, Int.sub_eq_add_neg, UInt32.ofInt_add, UInt32.ofInt_neg, ofInt_toInt]
    grind
  have bound := noise.toInt_lt
  have small : noise.toUInt32.toNat = noise.toInt.toNat := by
    rw [Int32.toNat_toUInt32_of_le (by rwa [Int32.le_iff_toInt_le])]
    rfl
  rw [twice]
  simp only [UInt32.toNat_add, small, UInt32.toNat_one]
  omega

theorem draw_limitsTime (value : Int) {noise : Int32} (nonneg : 0 ≤ noise.toInt) (rand : UInt32) :
    draw (limitsTime value noise) rand = some (UInt32.ofInt (drawn value noise.toInt rand)) := by
  have span := limits_span value nonneg
  have defined : (limitsTime value noise).max - (limitsTime value noise).min + 1 ≠ 0 := by
    intro zero
    rw [zero] at span
    simp at span
  simp only [draw, if_neg defined, Option.some.injEq]
  rw [drawn, UInt32.ofInt_add, UInt32.add_comm]
  congr 1
  rw [← UInt32.toNat_inj, UInt32.toNat_mod, span, toNat_ofInt]
  have bound := rand.toNat_lt
  have part := Nat.mod_le rand.toNat (2 * noise.toInt.toNat + 1)
  omega

theorem draw_limits (value : Int32) {noise : Int32} (nonneg : 0 ≤ noise.toInt) (rand : UInt32) :
    draw (limits value noise) rand =
      some (UInt32.ofInt (drawn value.toInt noise.toInt rand)) := by
  rw [limits_eq, draw_limitsTime _ nonneg]

/-- The documented range, `[value-noise/2,value+noise/2]`. -/
def Within (value noise : Int32) (drawn : Int) : Prop :=
  value.toInt - noise.toInt / 2 ≤ drawn ∧ drawn ≤ value.toInt + noise.toInt / 2

structure Range (value noise : Int32) : Prop where
  nonneg : 0 ≤ noise.toInt
  above : value.toInt + noise.toInt < 2 ^ 31

variable {value noise : Int32}

theorem Range.half (range : Range value noise) : (noise / 2).toInt = noise.toInt / 2 := by
  have nonneg := range.nonneg
  rw [Int32.toInt_div_of_ne_right noise 2 (by decide)]
  exact Int.tdiv_eq_ediv_of_nonneg nonneg

theorem Range.half_nonneg (range : Range value noise) : 0 ≤ (noise / 2).toInt := by
  have nonneg := range.nonneg
  rw [range.half]
  omega

theorem Range.int_iff (range : Range value noise) {half : Int} (nonneg : 0 ≤ half)
    (bound : half < 2 ^ 31) :
    (∀ rand : UInt32, rand.toNat < 2 ^ 31 →
      Within value noise (Int32.ofInt (drawn value.toInt half rand)).toInt) ↔
      half ≤ noise.toInt / 2 ∧ -2 ^ 31 ≤ value.toInt - half := by
  have small := noise.toInt_lt
  have upper := range.above
  have lower := value.le_toInt
  have positive := range.nonneg
  constructor
  · intro within
    have least := within 0 (by decide)
    rw [drawn_zero, Int32.toInt_ofInt, Within, Int.bmod_def] at least
    simp only [Int32.size] at least
    split at least <;> omega
  · rintro ⟨halved, above⟩ rand -
    have bounds := drawn_bounds value.toInt nonneg rand
    rw [Int32.toInt_ofInt_of_le (by omega) (by omega), Within]
    omega

theorem Range.time (range : Range value noise) (late : noise.toInt / 2 ≤ value.toInt)
    (rand : UInt32) :
    Within value noise (UInt32.ofInt (drawn value.toInt (noise.toInt / 2) rand)).toNat := by
  have upper := range.above
  have positive := range.nonneg
  have bounds := drawn_bounds value.toInt (by omega : 0 ≤ noise.toInt / 2) rand
  rw [toNat_ofInt, Within]
  omega

def Above (value noise : Int32) : Prop := -2 ^ 31 ≤ value.toInt - noise.toInt / 2

theorem Range.half_iff (range : Range value noise) :
    (∀ rand : UInt32, rand.toNat < 2 ^ 31 →
      Within value noise (Int32.ofInt (drawn value.toInt (noise.toInt / 2) rand)).toInt) ↔
      Above value noise := by
  have small := noise.toInt_lt
  have positive := range.nonneg
  rw [range.int_iff (by omega) (by omega), Above]
  exact and_iff_right (by omega)

theorem Range.whole_iff (range : Range value noise) :
    (∀ rand : UInt32, rand.toNat < 2 ^ 31 →
      Within value noise (Int32.ofInt (drawn value.toInt noise.toInt rand)).toInt) ↔
      noise = 0 := by
  have small := noise.toInt_lt
  have lower := value.le_toInt
  have positive := range.nonneg
  rw [range.int_iff (by omega) (by omega), ← Int32.toInt_inj, Int32.toInt_zero]
  omega

structure SignalRange (signal : Signal) (noise : SignalNoise) : Prop where
  A : Range signal.A noise.A
  B : Range signal.B noise.B
  tB : Range signal.nbTB noise.tB
  tA : Range signal.nbTA noise.tA
  tau : Range signal.tau noise.tau
  tauM : Range signal.tauM noise.tauM

variable {signal : Signal} {noises : SignalNoise}

namespace CDataGeneratorPeakRnd

structure InRange (signal : Signal) (noise : SignalNoise) (drawn : CDataGeneratorPeakRnd) :
    Prop where
  A : Within signal.A noise.A drawn.A.toInt
  B : Within signal.B noise.B drawn.B.toInt
  tB : Within signal.nbTB noise.tB drawn.nbTB.toInt
  rise : Within signal.nbTA noise.tA (drawn.nbTA - drawn.nbTB).toInt
  tau : noise.tau.toInt / 2 ≤ signal.tau.toInt → Within signal.tau noise.tau drawn.tau

theorem randomParameter_spec (range : SignalRange signal noises) (rand : Nat → UInt32) :
    randomParameter ((construct signal).readParameters noises) rand =
      let nbTB := Int32.ofInt (drawn signal.nbTB.toInt noises.tB.toInt (rand 3))
      some {
        nbTB := nbTB
        nbTA := Int32.ofInt (drawn signal.nbTA.toInt (noises.tA.toInt / 2) (rand 4)) + nbTB
        A := Int32.ofInt (drawn signal.A.toInt (noises.A.toInt / 2) (rand 1))
        B := Int32.ofInt (drawn signal.B.toInt (noises.B.toInt / 2) (rand 2))
        tau := (UInt32.ofInt
          (drawn signal.tau.toInt (noises.tau.toInt / 2) (rand 0))).toNat } := by
  simp only [randomParameter, readParameters, construct, Int32.add_sub_cancel,
    draw_limitsTime _ range.tau.half_nonneg, draw_limits _ range.A.half_nonneg,
    draw_limits _ range.B.half_nonneg, draw_limits _ range.tB.nonneg,
    draw_limits _ range.tA.half_nonneg, range.tau.half, range.A.half, range.B.half, range.tA.half,
    toInt32_ofInt, Option.bind_eq_bind, Option.bind_some]

def Documented (signal : Signal) (noise : SignalNoise) : Prop :=
  ∀ rand : Nat → UInt32, (∀ call, (rand call).toNat < 2 ^ 31) →
    ∃ drawn, randomParameter ((construct signal).readParameters noise) rand = some drawn ∧
      InRange signal noise drawn

theorem documented_iff (range : SignalRange signal noises) :
    Documented signal noises ↔ noises.tB = 0 ∧ Above signal.A noises.A ∧
      Above signal.B noises.B ∧ Above signal.nbTA noises.tA := by
  rw [← range.tB.whole_iff, ← range.A.half_iff, ← range.B.half_iff, ← range.tA.half_iff]
  simp only [Documented, randomParameter_spec range, Option.some.injEq, exists_eq_left']
  constructor
  · intro documented
    have every (rand : UInt32) (small : rand.toNat < 2 ^ 31) :=
      documented (fun _ => rand) fun _ => small
    refine ⟨fun rand small => (every rand small).tB, fun rand small => (every rand small).A,
      fun rand small => (every rand small).B, fun rand small => ?_⟩
    have rise := (every rand small).rise
    rwa [Int32.add_sub_cancel] at rise
  · rintro ⟨tB, A, B, tA⟩ rand small
    exact {
      A := A (rand 1) (small 1)
      B := B (rand 2) (small 2)
      tB := tB (rand 3) (small 3)
      rise := by
        rw [Int32.add_sub_cancel]
        exact tA (rand 4) (small 4)
      tau := fun late => range.tau.time late (rand 0) }

end CDataGeneratorPeakRnd

namespace CDataGeneratorExpRnd

structure InRange (signal : Signal) (noise : SignalNoise) (drawn : CDataGeneratorExpRnd) :
    Prop where
  A : Within signal.A noise.A drawn.A.toInt
  B : Within signal.B noise.B drawn.B.toInt
  tB : Within signal.nbTB noise.tB drawn.nbTB.toInt
  tau : noise.tau.toInt / 2 ≤ signal.tau.toInt → Within signal.tau noise.tau drawn.tau
  tauM : noise.tauM.toInt / 2 ≤ signal.tauM.toInt → Within signal.tauM noise.tauM drawn.tauM

theorem randomParameter_spec (range : SignalRange signal noises) (rand : Nat → UInt32) :
    randomParameter ((construct signal).readParameters noises) rand = some {
      nbTB := Int32.ofInt (drawn signal.nbTB.toInt noises.tB.toInt (rand 3))
      A := Int32.ofInt (drawn signal.A.toInt (noises.A.toInt / 2) (rand 1))
      B := Int32.ofInt (drawn signal.B.toInt (noises.B.toInt / 2) (rand 2))
      tau := (UInt32.ofInt
        (drawn signal.tau.toInt (noises.tau.toInt / 2) (rand 0))).toNat
      tauM := (UInt32.ofInt
        (drawn signal.tauM.toInt (noises.tauM.toInt / 2) (rand 4))).toNat } := by
  simp only [randomParameter, readParameters, construct, draw_limitsTime _ range.tau.half_nonneg,
    draw_limitsTime _ range.tauM.half_nonneg, draw_limits _ range.A.half_nonneg,
    draw_limits _ range.B.half_nonneg, draw_limits _ range.tB.nonneg, range.tau.half,
    range.tauM.half, range.A.half, range.B.half, toInt32_ofInt, Option.bind_eq_bind,
    Option.bind_some]

def Documented (signal : Signal) (noise : SignalNoise) : Prop :=
  ∀ rand : Nat → UInt32, (∀ call, (rand call).toNat < 2 ^ 31) →
    ∃ drawn, randomParameter ((construct signal).readParameters noise) rand = some drawn ∧
      InRange signal noise drawn

theorem documented_iff (range : SignalRange signal noises) :
    Documented signal noises ↔ noises.tB = 0 ∧ Above signal.A noises.A ∧
      Above signal.B noises.B := by
  rw [← range.tB.whole_iff, ← range.A.half_iff, ← range.B.half_iff]
  simp only [Documented, randomParameter_spec range, Option.some.injEq, exists_eq_left']
  constructor
  · intro documented
    have every (rand : UInt32) (small : rand.toNat < 2 ^ 31) :=
      documented (fun _ => rand) fun _ => small
    exact ⟨fun rand small => (every rand small).tB, fun rand small => (every rand small).A,
      fun rand small => (every rand small).B⟩
  · rintro ⟨tB, A, B⟩ rand small
    exact {
      A := A (rand 1) (small 1)
      B := B (rand 2) (small 2)
      tB := tB (rand 3) (small 3)
      tau := fun late => range.tau.time late (rand 0)
      tauM := fun late => range.tauM.time late (rand 4) }

end CDataGeneratorExpRnd

/-- The baseline time is drawn within its whole noise, every other parameter within half. -/
theorem randomParameter_documented_iff (range : SignalRange signal noises) :
    (CDataGeneratorPeakRnd.Documented signal noises ↔ noises.tB = 0 ∧
      Above signal.A noises.A ∧ Above signal.B noises.B ∧ Above signal.nbTA noises.tA) ∧
    (CDataGeneratorExpRnd.Documented signal noises ↔ noises.tB = 0 ∧
      Above signal.A noises.A ∧ Above signal.B noises.B) :=
  ⟨CDataGeneratorPeakRnd.documented_iff range, CDataGeneratorExpRnd.documented_iff range⟩

theorem randomParameter_documented_steady :
    CDataGeneratorPeakRnd.Documented ⟨100, 10, 500, 50, 2345, 23⟩ ⟨12, 3, 4, 0, 2, 4⟩ ∧
    CDataGeneratorExpRnd.Documented ⟨100, 10, 500, 50, 2345, 23⟩ ⟨12, 3, 4, 0, 2, 4⟩ := by
  have both := @randomParameter_documented_iff ⟨100, 10, 500, 50, 2345, 23⟩ ⟨12, 3, 4, 0, 2, 4⟩ {
    A := ⟨by decide, by decide⟩
    B := ⟨by decide, by decide⟩
    tB := ⟨by decide, by decide⟩
    tA := ⟨by decide, by decide⟩
    tau := ⟨by decide, by decide⟩
    tauM := ⟨by decide, by decide⟩ }
  simp only [Above] at both
  exact ⟨both.1.mpr (by decide), both.2.mpr (by decide)⟩

/-- A baseline of 100 with a noise of 123, drawn as -23. -/
theorem randomParameter_documented_fails :
    ¬ CDataGeneratorPeakRnd.Documented ⟨100, 10, 500, 50, 2345, 23⟩ ⟨12, 3, 4, 123, 2, 4⟩ := by
  intro documented
  obtain ⟨drawn, ran, inRange⟩ := documented (fun _ => 0) fun _ => by decide
  have baseline : drawn.nbTB.toInt = -23 := by
    cases ran
    decide
  have least := inRange.tB.1
  rw [baseline] at least
  exact absurd least (by decide)

end RockAMali
