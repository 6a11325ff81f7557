import Mathlib.Logic.Function.Iterate
import RockAMali.Library.Baton

/-!
The loops of `CDataBuffer::run` and `CDataProcessor::run` over the slots of a
circular buffer.
-/

namespace RockAMali

structure Index where
  n : Nat
  i : Nat
deriving DecidableEq

/-- `CDataBuffer::run`, or `CDataProcessor::run` with its `stride` and `start`. -/
inductive Run
  | buffer
  | processor (stride start : Nat)

def Run.start : Run → Nat
  | .buffer => 0
  | .processor _ start => start

def Run.stride : Run → Nat
  | .buffer => 1
  | .processor stride _ => stride

def Run.first (run : Run) : Index := ⟨run.start, run.start⟩

def Run.nextSlot (nbuffer : Nat) : Run → Nat → Nat
  -- if(n==nbuffer-1) n=-1; then ++n
  | .buffer, n => if n = nbuffer - 1 then 0 else n + 1
  -- n+=stride; if(n>nbuffer-1) n=start;
  | .processor stride start, n => if n + stride > nbuffer - 1 then start else n + stride

def Run.next (nbuffer : Nat) (run : Run) (index : Index) : Index :=
  ⟨run.nextSlot nbuffer index.n, index.i + run.stride⟩

/-- The same on `unsigned int` variables, where `n=-1` is the largest value and
`++n` brings it back to zero. -/
def Run.next32 (nbuffer : Nat) : Run → Index → Index
  | .buffer, index =>
      let n := if index.n = nbuffer - 1 then 2 ^ 32 - 1 else index.n
      ⟨(n + 1) % 2 ^ 32, (index.i + 1) % 2 ^ 32⟩
  | .processor stride start, index =>
      let n := (index.n + stride) % 2 ^ 32
      ⟨if n > nbuffer - 1 then start else n, (index.i + stride) % 2 ^ 32⟩

/-- The options are of type `int`, so that no counter of a running loop wraps
but the slot of `CDataBuffer::run`, on purpose. -/
theorem Run.next32_eq {nbuffer count : Nat} (run : Run) (index : Index)
    (nbufferInt : nbuffer < 2 ^ 31) (countInt : count < 2 ^ 31) (strideBound : run.stride ≤ nbuffer)
    (slotBound : index.n < nbuffer) (running : index.i < count) :
    run.next32 nbuffer index = run.next nbuffer index := by
  cases run with
  | buffer =>
      simp only [Run.next32, Run.next, Run.nextSlot, Run.stride, Index.mk.injEq]
      refine ⟨?_, by omega⟩
      split <;> omega
  | processor stride start =>
      simp only [Run.stride] at strideBound
      have slotMod : (index.n + stride) % 2 ^ 32 = index.n + stride := by omega
      have indexMod : (index.i + stride) % 2 ^ 32 = index.i + stride := by omega
      simp only [Run.next32, Run.next, Run.nextSlot, Run.stride, slotMod, indexMod]

def Run.index32 (nbuffer : Nat) (run : Run) (step : Nat) : Index :=
  (run.next32 nbuffer)^[step] run.first

def Run.Passed (nbuffer count : Nat) (run : Run) (n : Nat) : Prop :=
  ∃ step, (∀ before ≤ step, (run.index32 nbuffer before).i < count) ∧
    (run.index32 nbuffer step).n = n

theorem Run.index32_succ (nbuffer : Nat) (run : Run) (step : Nat) :
    run.index32 nbuffer (step + 1) = run.next32 nbuffer (run.index32 nbuffer step) :=
  Function.iterate_succ_apply' _ _ _

theorem Run.index32_processor {nbuffer : Nat} (ring : 0 < nbuffer) (stride start step : Nat) :
    ((Run.processor stride start).index32 nbuffer step).n < nbuffer ∨
      ((Run.processor stride start).index32 nbuffer step).n = start := by
  cases step with
  | zero => exact Or.inr rfl
  | succ step =>
      rw [Run.index32_succ]
      simp only [Run.next32]
      split
      · exact Or.inr rfl
      · left
        omega

theorem Run.passed_inside_iff {nbuffer : Nat} (ring : 0 < nbuffer) (count stride start : Nat) :
    (∀ n, (Run.processor stride start).Passed nbuffer count n → n < nbuffer) ↔
      start < nbuffer ∨ count ≤ start := by
  constructor
  · intro inside
    by_contra outside
    have first : (Run.processor stride start).Passed nbuffer count start := by
      refine ⟨0, ?_, rfl⟩
      intro before bound
      obtain rfl : before = 0 := by omega
      simp only [Run.index32, Function.iterate_zero, id_eq, Run.first, Run.start]
      omega
    have := inside start first
    omega
  · rintro started n ⟨step, running, rfl⟩
    have begun := running 0 (Nat.zero_le step)
    simp only [Run.index32, Function.iterate_zero, id_eq, Run.first, Run.start] at begun
    have place := Run.index32_processor ring stride start step
    omega

def Run.index (nbuffer : Nat) (run : Run) (step : Nat) : Index :=
  (run.next nbuffer)^[step] run.first

def Run.slot (nbuffer : Nat) (run : Run) (step : Nat) : Nat := (run.index nbuffer step).n

@[simp] theorem Run.index_zero (nbuffer : Nat) (run : Run) :
    run.index nbuffer 0 = run.first := rfl

theorem Run.index_succ (nbuffer : Nat) (run : Run) (step : Nat) :
    run.index nbuffer (step + 1) = run.next nbuffer (run.index nbuffer step) :=
  Function.iterate_succ_apply' _ _ _

theorem Run.slot_zero (nbuffer : Nat) (run : Run) : run.slot nbuffer 0 = run.start := rfl

theorem Run.slot_succ (nbuffer : Nat) (run : Run) (step : Nat) :
    run.slot nbuffer (step + 1) = run.nextSlot nbuffer (run.slot nbuffer step) := by
  simp only [Run.slot, Run.index_succ, Run.next]

theorem Run.label (nbuffer : Nat) (run : Run) (step : Nat) :
    (run.index nbuffer step).i = run.start + run.stride * step := by
  induction step with
  | zero => simp [Run.first]
  | succ step ih =>
      rw [Run.index_succ, Run.next, ih, Nat.mul_succ, Nat.add_assoc]

theorem Run.slot_buffer {nbuffer : Nat} (positive : 0 < nbuffer) (step : Nat) :
    Run.buffer.slot nbuffer step = step % nbuffer := by
  induction step with
  | zero => simp [Run.slot_zero, Run.start]
  | succ step ih =>
      rw [Run.slot_succ, ih, Run.nextSlot, ← Nat.mod_add_mod]
      have bound := Nat.mod_lt step positive
      split
      · rename_i last
        rw [show step % nbuffer + 1 = nbuffer by omega, Nat.mod_self]
      · exact (Nat.mod_eq_of_lt (by omega)).symm

theorem Run.slot_processor {nbuffer stride start : Nat} (startBound : start < stride)
    (strideBound : stride ≤ nbuffer) (step : Nat) :
    (Run.processor stride start).slot nbuffer step < nbuffer ∧
      (Run.processor stride start).slot nbuffer step % stride = start := by
  induction step with
  | zero => exact ⟨Nat.lt_of_lt_of_le startBound strideBound, Nat.mod_eq_of_lt startBound⟩
  | succ step ih =>
      rw [Run.slot_succ, Run.nextSlot]
      split
      · exact ⟨by omega, Nat.mod_eq_of_lt startBound⟩
      · refine ⟨by omega, ?_⟩
        rw [Nat.add_mod_right]
        exact ih.2

theorem Run.slot_processor_of_dvd {nbuffer stride start : Nat} (startBound : start < stride)
    (divides : stride ∣ nbuffer) (positive : 0 < nbuffer) (step : Nat) :
    (Run.processor stride start).slot nbuffer step = (start + stride * step) % nbuffer := by
  have strideBound := Nat.le_of_dvd positive divides
  induction step with
  | zero =>
      rw [Run.slot_zero, Run.start, Nat.mul_zero, Nat.add_zero]
      exact (Nat.mod_eq_of_lt (by omega)).symm
  | succ step ih =>
      have bounds := Run.slot_processor startBound strideBound step
      rw [Run.slot_succ, Run.nextSlot, Nat.mul_succ, ← Nat.add_assoc, ← Nat.mod_add_mod, ← ih]
      generalize (Run.processor stride start).slot nbuffer step = slot at bounds
      obtain ⟨slotBound, offset⟩ := bounds
      split
      · -- the next slot of this offset is past the end: the ring has gone round
        obtain ⟨laps, size⟩ := divides
        have slotValue := Nat.div_add_mod slot stride
        rw [offset] at slotValue
        have lapBound : slot / stride < laps := by
          rw [Nat.div_lt_iff_lt_mul (by omega), Nat.mul_comm, ← size]
          exact slotBound
        have lastLap : laps ≤ slot / stride + 1 := by
          by_contra early
          have room : stride * (slot / stride + 2) ≤ stride * laps :=
            Nat.mul_le_mul_left stride (by omega)
          rw [Nat.mul_add] at room
          omega
        have lap : slot / stride + 1 = laps := by omega
        have wrapped : slot + stride = nbuffer + start := by
          rw [size, ← lap, Nat.mul_add]
          omega
        rw [wrapped, Nat.add_mod_left, Nat.mod_eq_of_lt (by omega)]
      · exact (Nat.mod_eq_of_lt (by omega)).symm

structure Run.Regular (nbuffer : Nat) (run : Run) : Prop where
  positive : 0 < nbuffer
  start : run.start < run.stride
  divides : run.stride ∣ nbuffer

namespace Run.Regular

variable {nbuffer : Nat} {run : Run}

theorem slot (regular : run.Regular nbuffer) (step : Nat) :
    run.slot nbuffer step = (run.index nbuffer step).i % nbuffer := by
  rw [Run.label]
  cases run with
  | buffer =>
      rw [Run.slot_buffer regular.positive, Run.start, Run.stride, Nat.zero_add, Nat.one_mul]
  | processor stride start =>
      exact Run.slot_processor_of_dvd regular.start regular.divides regular.positive step

theorem visits (regular : run.Regular nbuffer) (step : Nat) :
    Relay.visits (run.slot nbuffer) step (run.slot nbuffer step) =
      (run.index nbuffer step).i / nbuffer := by
  obtain ⟨laps, size⟩ := regular.divides
  have stridePositive := Nat.lt_of_le_of_lt (Nat.zero_le _) regular.start
  have positive := regular.positive
  rw [size] at positive
  have lapsPositive := Nat.pos_of_mul_pos_left positive
  have offset (visit : Nat) : run.slot nbuffer visit = run.start + run.stride * (visit % laps) := by
    rw [regular.slot, Run.label, size, Nat.mod_mul, Nat.add_mul_mod_self_left,
      Nat.mod_eq_of_lt regular.start, Nat.add_mul_div_left _ _ stridePositive,
      Nat.div_eq_of_lt regular.start, Nat.zero_add]
  have sameSlot (visit : Nat) :
      run.slot nbuffer visit = run.slot nbuffer step ↔ visit % laps = step % laps := by
    rw [offset, offset, Nat.add_left_cancel_iff, Nat.mul_left_cancel_iff stridePositive]
  have label : (run.index nbuffer step).i / nbuffer = step / laps := by
    rw [Run.label, size, ← Nat.div_div_eq_div_mul, Nat.add_mul_div_left _ _ stridePositive,
      Nat.div_eq_of_lt regular.start, Nat.zero_add]
  rw [label, ← Relay.visits_mod lapsPositive step]
  simp only [Relay.visits, sameSlot]

theorem label_le (regular : run.Regular nbuffer) {slot steps step laps : Nat}
    (slotBound : slot < nbuffer) (offset : slot % run.stride = run.start) (order : step ≤ steps)
    (visited : Relay.visits (run.slot nbuffer) steps slot = laps) :
    (run.index nbuffer step).i ≤ slot + nbuffer * laps := by
  by_contra past
  obtain ⟨parts, size⟩ := regular.divides
  have stridePositive := Nat.lt_of_le_of_lt (Nat.zero_le _) regular.start
  have slotValue := Nat.mod_add_div slot run.stride
  rw [offset] at slotValue
  let next := slot / run.stride + parts * laps
  have label : (run.index nbuffer next).i = slot + nbuffer * laps := by
    rw [Run.label, size, Nat.mul_add, ← Nat.add_assoc, slotValue, Nat.mul_assoc]
  have nextSlot : run.slot nbuffer next = slot := by
    rw [regular.slot, label, Nat.add_mul_mod_self_left, Nat.mod_eq_of_lt slotBound]
  have earlier : next < step := by
    rw [← label, Run.label, Run.label] at past
    have product : run.stride * next < run.stride * step := by omega
    exact Nat.lt_of_mul_lt_mul_left product
  have before := regular.visits next
  have after := Relay.visits_lt (run.slot nbuffer) (Nat.lt_of_lt_of_le earlier order)
  rw [nextSlot, label, Nat.add_mul_div_left _ _ regular.positive, Nat.div_eq_of_lt slotBound,
    Nat.zero_add] at before
  rw [nextSlot, before, visited] at after
  omega

end Run.Regular

end RockAMali
