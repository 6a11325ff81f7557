import Mathlib.Data.List.Induction
import Mathlib.Algebra.Order.Ring.Nat
import Mathlib.Algebra.BigOperators.Group.List.Basic
import Mathlib.Tactic.Ring

/-!
The time that `CDataStore` sleeps between two looks at a slot, an `unsigned int`
that each iteration adjusts to the number of looks it took.
-/

namespace RockAMali

namespace DataStore

/-- adjust wait (load average) -/
def adjust (laSleep c : UInt32) : UInt32 :=
  let laSleep := if c > 10 then laSleep * 2 else laSleep
  if c < 5 then laSleep / 2 else laSleep

def laSleep (counts : List UInt32) : UInt32 := counts.foldl adjust 12

def Adapting (counts : List UInt32) : Prop :=
  ∀ past c, past ++ [c] <+: counts →
    laSleep (past ++ [c]) ≠ 0 ∧ (c > 10 → laSleep past < laSleep (past ++ [c]))

def load (c : UInt32) : Int := if c > 10 then 1 else if c < 5 then -1 else 0

def balance (counts : List UInt32) : Int := (counts.map load).sum

def Balanced (counts : List UInt32) : Prop :=
  ∀ past, past <+: counts → -3 ≤ balance past ∧ balance past ≤ 28

variable {counts : List UInt32} {c sleep : UInt32} {n : Int}

theorem laSleep_concat (counts : List UInt32) (c : UInt32) :
    laSleep (counts ++ [c]) = adjust (laSleep counts) c := by
  simp [laSleep]

theorem balance_concat (counts : List UInt32) (c : UInt32) :
    balance (counts ++ [c]) = balance counts + load c := by
  simp [balance]

/-! What the steps do to the number of bits, which is 4 at the start. -/

structure Scaled (sleep : UInt32) (n : Int) : Prop where
  least : -3 ≤ n
  greatest : n ≤ 28
  lower : 2 ^ (n + 3).toNat ≤ sleep.toNat
  upper : sleep.toNat < 2 * 2 ^ (n + 3).toNat

theorem scaled_start : Scaled 12 0 := ⟨by decide, by decide, by decide, by decide⟩

theorem toNat_double (sleep : UInt32) : (sleep * 2).toNat = 2 * sleep.toNat % 2 ^ 32 := by
  rw [UInt32.toNat_mul, Nat.mul_comm]
  rfl

theorem toNat_half (sleep : UInt32) : (sleep / 2).toNat = sleep.toNat / 2 := by
  rw [UInt32.toNat_div]
  rfl

theorem Scaled.double (scaled : Scaled sleep n) (room : n < 28) :
    Scaled (sleep * 2) (n + 1) ∧ sleep < sleep * 2 := by
  obtain ⟨least, _, lower, upper⟩ := scaled
  have next : (n + 1 + 3).toNat = (n + 3).toNat + 1 := by omega
  have power : 2 ^ (n + 3).toNat ≤ 2 ^ 30 := Nat.pow_le_pow_right (by decide) (by omega)
  have positive : 0 < 2 ^ (n + 3).toNat := Nat.two_pow_pos _
  refine ⟨⟨by omega, by omega, ?_, ?_⟩, ?_⟩
  · rw [toNat_double, next, Nat.pow_succ]
    omega
  · rw [toNat_double, next, Nat.pow_succ]
    omega
  · rw [UInt32.lt_iff_toNat_lt, toNat_double]
    omega

theorem Scaled.double_wraps (scaled : Scaled sleep 28) : ¬sleep < sleep * 2 := by
  have lower : 2 ^ 31 ≤ sleep.toNat := scaled.lower
  have bound := sleep.toNat_lt
  rw [UInt32.lt_iff_toNat_lt, toNat_double]
  omega

theorem Scaled.halve (scaled : Scaled sleep n) (room : -3 < n) : Scaled (sleep / 2) (n - 1) := by
  obtain ⟨_, greatest, lower, upper⟩ := scaled
  have next : (n + 3).toNat = (n - 1 + 3).toNat + 1 := by omega
  rw [next, Nat.pow_succ] at lower upper
  refine ⟨by omega, by omega, ?_, ?_⟩
  · rw [toNat_half]
    omega
  · rw [toNat_half]
    omega

theorem Scaled.halve_stops (scaled : Scaled sleep (-3)) : sleep / 2 = 0 := by
  have upper : sleep.toNat < 2 := scaled.upper
  rw [← UInt32.toNat_inj, toNat_half]
  simp only [UInt32.toNat_zero]
  omega

theorem Scaled.ne_zero (scaled : Scaled sleep n) : sleep ≠ 0 := by
  rintro rfl
  have lower := scaled.lower
  simp at lower

theorem adjust_cases (sleep c : UInt32) :
    c > 10 ∧ load c = 1 ∧ adjust sleep c = sleep * 2 ∨
    ¬c > 10 ∧ load c = -1 ∧ adjust sleep c = sleep / 2 ∨
    ¬c > 10 ∧ load c = 0 ∧ adjust sleep c = sleep := by
  by_cases long : c > 10
  · have late : ¬c < 5 := by
      rw [gt_iff_lt, UInt32.lt_iff_toNat_lt] at long
      rw [UInt32.lt_iff_toNat_lt]
      exact Nat.not_lt.mpr (Nat.le_trans (by decide) (Nat.le_of_lt long))
    simp [long, late, load, adjust]
  · by_cases short : c < 5
    · simp [long, short, load, adjust]
    · simp [long, short, load, adjust]

theorem Scaled.adjust_iff (scaled : Scaled sleep n) :
    (adjust sleep c ≠ 0 ∧ (c > 10 → sleep < adjust sleep c)) ↔
      -3 ≤ n + load c ∧ n + load c ≤ 28 := by
  have least := scaled.least
  have greatest := scaled.greatest
  obtain ⟨long, step, doubled⟩ | ⟨short, step, halved⟩ | ⟨fair, step, kept⟩ :=
    adjust_cases sleep c
  · rw [doubled, step]
    by_cases room : n < 28
    · obtain ⟨next, longer⟩ := scaled.double room
      exact iff_of_true ⟨next.ne_zero, fun _ => longer⟩ (by omega)
    · obtain rfl : n = 28 := by omega
      exact iff_of_false (fun adapts => scaled.double_wraps (adapts.2 long)) (by omega)
  · rw [halved, step]
    by_cases room : -3 < n
    · exact iff_of_true ⟨(scaled.halve room).ne_zero, fun long => absurd long short⟩ (by omega)
    · obtain rfl : n = -3 := by omega
      exact iff_of_false (fun adapts => adapts.1 scaled.halve_stops) (by omega)
  · rw [kept, step]
    exact iff_of_true ⟨scaled.ne_zero, fun long => absurd long fair⟩ (by omega)

theorem Scaled.adjust (scaled : Scaled sleep n)
    (room : -3 ≤ n + load c ∧ n + load c ≤ 28) : Scaled (adjust sleep c) (n + load c) := by
  obtain ⟨_, step, doubled⟩ | ⟨_, step, halved⟩ | ⟨_, step, kept⟩ := adjust_cases sleep c
  · rw [step] at room
    rw [doubled, step]
    exact (scaled.double (by omega)).1
  · rw [step] at room
    rw [halved, step]
    exact scaled.halve (by omega)
  · rwa [kept, step, Int.add_zero]

theorem adapting_concat :
    Adapting (counts ++ [c]) ↔ Adapting counts ∧
      (laSleep (counts ++ [c]) ≠ 0 ∧ (c > 10 → laSleep counts < laSleep (counts ++ [c]))) := by
  constructor
  · intro adapting
    refine ⟨?_, adapting counts c (List.prefix_refl _)⟩
    intro past next before
    exact adapting past next (before.trans (List.prefix_append counts [c]))
  · rintro ⟨adapting, last⟩ past next before
    obtain same | earlier := List.prefix_concat_iff.mp before
    · obtain ⟨rfl, single⟩ := List.append_inj' same rfl
      cases single
      exact last
    · exact adapting past next earlier

theorem balanced_concat :
    Balanced (counts ++ [c]) ↔ Balanced counts ∧
      (-3 ≤ balance (counts ++ [c]) ∧ balance (counts ++ [c]) ≤ 28) := by
  constructor
  · intro balanced
    refine ⟨?_, balanced _ (List.prefix_refl _)⟩
    intro past before
    exact balanced past (before.trans (List.prefix_append counts [c]))
  · rintro ⟨balanced, last⟩ past before
    obtain rfl | earlier := List.prefix_concat_iff.mp before
    · exact last
    · exact balanced past earlier

theorem Balanced.scaled (balanced : Balanced counts) : Scaled (laSleep counts) (balance counts) := by
  induction counts using List.reverseRecOn with
  | nil => exact scaled_start
  | append_singleton counts c ih =>
      obtain ⟨before, room⟩ := balanced_concat.mp balanced
      rw [laSleep_concat, balance_concat]
      rw [balance_concat] at room
      exact (ih before).adjust room

theorem adapting_iff (counts : List UInt32) : Adapting counts ↔ Balanced counts := by
  induction counts using List.reverseRecOn with
  | nil =>
      refine iff_of_true ?_ ?_
      · intro past c before
        simp at before
      · intro past before
        rw [List.prefix_nil.mp before]
        decide
  | append_singleton counts c ih =>
      rw [adapting_concat, balanced_concat, ih]
      refine and_congr_right fun balanced => ?_
      rw [laSleep_concat, balance_concat]
      exact balanced.scaled.adjust_iff

/-- Four short waits stop the sleep, and 29 long ones wrap it around. -/
theorem adapting_fails :
    ¬Adapting [1, 1, 1, 1] ∧ ¬Adapting (List.replicate 29 11) := by
  constructor
  · intro adapting
    exact absurd (adapting [1, 1, 1] 1 (List.prefix_refl _)).1 (by decide)
  · intro adapting
    exact absurd (adapting (List.replicate 28 11) 11 (List.prefix_refl _)).2 (by decide)

end DataStore

end RockAMali
