import Mathlib.Algebra.BigOperators.Group.List.Basic
import Mathlib.Algebra.Order.Ring.Nat
import Mathlib.Algebra.BigOperators.Ring.List
import RockAMali.Watchdog

/-!
The volumes in bytes behind the rates of `udp_receive.cpp`: the watchdog has one
for each interval, the receive thread one for the whole run.
-/

namespace RockAMali

/-- `count*width`, of two `unsigned int`. -/
def intervalVolume (count width : UInt32) : UInt32 := count * width

/-- `max_iter*width`, an `unsigned long` and an `unsigned int`. -/
def runVolume (maxIter : UInt64) (width : UInt32) : UInt64 := maxIter * width.toUInt64

def intervalVolumes (counts : List UInt32) (width : UInt32) : List Nat :=
  counts.map fun count => (intervalVolume count width).toNat

def framesCounted (counts : List UInt32) : Nat := (counts.map UInt32.toNat).sum

structure ExactVolumes (counts : List UInt32) (width : UInt32) (maxIter : UInt64) : Prop where
  interval : ∀ count ∈ counts,
    (intervalVolume count width).toNat = count.toNat * width.toNat
  total : (intervalVolumes counts width).sum = width.toNat * framesCounted counts
  run : framesCounted counts = maxIter.toNat →
    (intervalVolumes counts width).sum = (runVolume maxIter width).toNat

variable {width : UInt32} {maxIter : UInt64}

theorem intervalVolume_exact_iff (count width : UInt32) :
    (intervalVolume count width).toNat = count.toNat * width.toNat ↔
      count.toNat * width.toNat < 2 ^ 32 := by
  rw [intervalVolume, UInt32.toNat_mul, Nat.mod_eq_iff_lt (by decide)]

theorem runVolume_exact_iff (maxIter : UInt64) (width : UInt32) :
    (runVolume maxIter width).toNat = maxIter.toNat * width.toNat ↔
      maxIter.toNat * width.toNat < 2 ^ 64 := by
  rw [runVolume, UInt64.toNat_mul, UInt32.toNat_toUInt64, Nat.mod_eq_iff_lt (by decide)]

theorem sum_intervalVolumes {counts : List UInt32} (exact : ∀ count ∈ counts,
    (intervalVolume count width).toNat = count.toNat * width.toNat) :
    (intervalVolumes counts width).sum = width.toNat * framesCounted counts := by
  rw [intervalVolumes, framesCounted, List.map_congr_left exact, ← List.sum_map_mul_left]
  simp only [Nat.mul_comm]

theorem exactVolumes_iff (counts : List UInt32) (width : UInt32) (maxIter : UInt64) :
    ExactVolumes counts width maxIter ↔
      (∀ count ∈ counts, count.toNat * width.toNat < 2 ^ 32) ∧
      (framesCounted counts = maxIter.toNat → maxIter.toNat * width.toNat < 2 ^ 64) := by
  constructor
  · rintro ⟨interval, total, run⟩
    refine ⟨fun count member => (intervalVolume_exact_iff count width).mp (interval count member),
      fun complete => (runVolume_exact_iff maxIter width).mp ?_⟩
    rw [← run complete, total, complete, Nat.mul_comm]
  · rintro ⟨small, whole⟩
    have interval (count : UInt32) (member : count ∈ counts) :=
      (intervalVolume_exact_iff count width).mpr (small count member)
    have total := sum_intervalVolumes interval
    refine ⟨interval, total, fun complete => ?_⟩
    rw [total, complete, (runVolume_exact_iff maxIter width).mpr (whole complete), Nat.mul_comm]

theorem exactVolumes_fails : ¬ExactVolumes [4194304] 1024 4194304 := by
  intro exact
  exact absurd (exact.interval 4194304 (by decide)) (by decide)

namespace Threads

def counts (maxIter : UInt64) : Threads → List Section → List UInt32
  | _, [] => []
  | state, label :: rest =>
      match state.step maxIter label with
      | none => []
      | some next =>
          (if label = .interval then [UInt32.ofNat state.received] else []) ++
            counts maxIter next rest

variable {actions : List Section} {state final : Threads}

theorem counts_accounting (ran : Transition.run (step maxIter) state actions = some final)
    (room : state.received + (maxIter.toNat - state.i) < 2 ^ 32) :
    framesCounted (counts maxIter state actions) + final.received + state.i =
      state.received + final.i := by
  induction actions generalizing state with
  | nil =>
      obtain rfl : state = final := by simpa [Transition.run] using ran
      simp [counts, framesCounted]
  | cons label rest ih =>
      obtain ⟨next, taken, ran⟩ := Option.bind_eq_some_iff.mp ran
      have later := ih ran
      simp only [counts, taken]
      cases label with
      | frame =>
          obtain ⟨⟨_, inside⟩, rfl⟩ := step_frame.mp taken
          have counted : (state.received + 1) % 2 ^ 32 = state.received + 1 :=
            Nat.mod_eq_of_lt (by omega)
          simp only [counted, reduceCtorEq, if_false, List.nil_append] at later ⊢
          have rest := later (by omega)
          omega
      | timeout =>
          obtain ⟨_, rfl⟩ := step_timeout.mp taken
          exact later room
      | complete =>
          obtain ⟨_, rfl⟩ := step_complete.mp taken
          exact later room
      | finish =>
          obtain ⟨_, rfl⟩ := step_finish.mp taken
          exact later room
      | interval =>
          obtain ⟨_, rfl⟩ := step_interval.mp taken
          have taken : (UInt32.ofNat state.received).toNat = state.received :=
            UInt32.toNat_ofNat_of_lt' (by simp only [UInt32.size]; omega)
          have rest := later (by simp only; omega)
          simp only [framesCounted, if_true, List.map_append, List.map_cons, List.map_nil,
            List.sum_append, List.sum_cons, List.sum_nil, taken] at rest ⊢
          omega
      | check =>
          obtain ⟨_, ⟨_, rfl⟩ | ⟨_, rfl⟩⟩ := step_check.mp taken
          · exact later room
          · exact later room

/-- Where the volume of the whole run has 32 bits, so have those of its intervals. -/
theorem run_volumes (positive : 0 < width) (small : maxIter.toNat * width.toNat < 2 ^ 32)
    (ran : run maxIter actions = some final) :
    ExactVolumes (counts maxIter initial actions) width maxIter := by
  have some_byte : 1 ≤ width.toNat := UInt32.lt_iff_toNat_lt.mp positive
  have frames : maxIter.toNat ≤ maxIter.toNat * width.toNat := Nat.le_mul_of_pos_right _ some_byte
  have none : initial.received = 0 := rfl
  have first : initial.i = 0 := rfl
  have accounting := counts_accounting ran (by omega)
  have bounded := (run_consistent ran).bounded
  refine (exactVolumes_iff _ width maxIter).mpr ⟨fun count member => ?_, fun _ => by omega⟩
  have part : count.toNat ≤ framesCounted (counts maxIter initial actions) :=
    List.single_le_sum (fun _ _ => Nat.zero_le _) _ (List.mem_map_of_mem member)
  have product : count.toNat * width.toNat ≤ maxIter.toNat * width.toNat :=
    Nat.mul_le_mul_right _ (by omega)
  omega

end Threads

end RockAMali
