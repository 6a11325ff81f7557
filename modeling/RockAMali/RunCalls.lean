import Mathlib.Data.List.Range
import Mathlib.Data.List.Perm.Basic
import Mathlib.Data.List.Nodup
import RockAMali.DataBuffer

/-!
The calls of `iteration` that a loop over the circular buffer makes, in order,
and those of all processing threads together.
-/

namespace RockAMali

/-- `for(...;i<count;...) this->iteration(...,n,i);` on `unsigned int` counters. -/
def Run.calls (nbuffer count : Nat) (run : Run) : Nat → Index → Option (List Index)
  | 0, _ => none
  | fuel + 1, index =>
      if index.i < count then
        (run.calls nbuffer count fuel (run.next32 nbuffer index)).map (index :: ·)
      else some []

def onSlot (nbuffer i : Nat) : Index := ⟨i % nbuffer, i⟩

def Run.frames (count : Nat) (run : Run) (i : Nat) : List Nat :=
  List.range' i ((count - i + (run.stride - 1)) / run.stride) run.stride

section Loops

variable {nbuffer count : Nat} {run : Run}

theorem Run.frames_past {i : Nat} (past : count ≤ i) (positive : 0 < run.stride) :
    run.frames count i = [] := by
  have none : (count - i + (run.stride - 1)) / run.stride = 0 := by
    rw [Nat.div_eq_of_lt (by omega)]
  rw [frames, none, List.range'_zero]

theorem Run.frames_next {i : Nat} (inside : i < count) (positive : 0 < run.stride) :
    run.frames count i = i :: run.frames count (i + run.stride) := by
  have passes : (count - i + (run.stride - 1)) / run.stride =
      (count - (i + run.stride) + (run.stride - 1)) / run.stride + 1 := by
    by_cases last : count - i ≤ run.stride
    · have one : count - i + (run.stride - 1) = (count - i - 1) + run.stride := by omega
      have rest : count - (i + run.stride) + (run.stride - 1) = run.stride - 1 := by omega
      rw [one, rest, Nat.add_div_right _ positive, Nat.div_eq_of_lt (by omega),
        Nat.div_eq_of_lt (by omega)]
    · have more : count - i + (run.stride - 1) =
          count - (i + run.stride) + (run.stride - 1) + run.stride := by omega
      rw [more, Nat.add_div_right _ positive]
  rw [frames, passes, List.range'_succ, frames]

theorem Run.mem_frames {start frame : Nat} (positive : 0 < run.stride) (bound : start < run.stride) :
    frame ∈ run.frames count start ↔ frame < count ∧ frame % run.stride = start := by
  have steps (step : Nat) : step < (count - start + (run.stride - 1)) / run.stride ↔
      start + run.stride * step < count := by
    rw [Nat.lt_div_iff_mul_lt positive, Nat.mul_comm]
    omega
  rw [frames, List.mem_range']
  constructor
  · rintro ⟨step, within, rfl⟩
    refine ⟨(steps step).mp within, ?_⟩
    rw [Nat.add_mul_mod_self_left, Nat.mod_eq_of_lt bound]
  · rintro ⟨inside, rfl⟩
    have value := Nat.mod_add_div frame run.stride
    exact ⟨frame / run.stride, (steps _).mpr (by omega), value.symm⟩

theorem Run.calls_from (regular : run.Regular nbuffer) (nbufferInt : nbuffer < 2 ^ 31)
    (countInt : count < 2 ^ 31) {fuel : Nat} (step : Nat)
    (enough : count - (run.index nbuffer step).i < fuel) :
    run.calls nbuffer count fuel (run.index nbuffer step) =
      some ((run.frames count (run.index nbuffer step).i).map (onSlot nbuffer)) := by
  have positive : 0 < run.stride := Nat.lt_of_le_of_lt (Nat.zero_le _) regular.start
  induction fuel generalizing step with
  | zero => omega
  | succ fuel ih =>
      rw [calls]
      split
      · rename_i running
        have slot := regular.slot step
        have strideBound := Nat.le_of_dvd regular.positive regular.divides
        have next : run.next32 nbuffer (run.index nbuffer step) = run.index nbuffer (step + 1) := by
          rw [Run.index_succ]
          refine Run.next32_eq run _ nbufferInt countInt strideBound ?_ running
          rw [Run.slot] at slot
          rw [slot]
          exact Nat.mod_lt _ regular.positive
        have label : (run.index nbuffer (step + 1)).i =
            (run.index nbuffer step).i + run.stride := by
          rw [Run.index_succ, Run.next]
        have here : run.index nbuffer step = onSlot nbuffer (run.index nbuffer step).i := by
          rw [onSlot, ← slot, Run.slot]
        rw [next, ih (step + 1) (by omega), label, run.frames_next running positive,
          Option.map_some, List.map_cons, ← here]
      · rename_i done
        rw [run.frames_past (by omega) positive, List.map_nil]

theorem Run.calls_regular (regular : run.Regular nbuffer) (nbufferInt : nbuffer < 2 ^ 31)
    (countInt : count < 2 ^ 31) {fuel : Nat} (enough : count < fuel) :
    run.calls nbuffer count fuel run.first =
      some ((run.frames count run.start).map (onSlot nbuffer)) := by
  rw [← Run.index_zero nbuffer run]
  exact run.calls_from regular nbufferInt countInt 0 (Nat.lt_of_le_of_lt (Nat.sub_le _ _) enough)

theorem Run.pairwise_frames (positive : 0 < run.stride) (i : Nat) :
    (run.frames count i).Pairwise (· < ·) :=
  List.pairwise_lt_range' _ positive

theorem Run.nodup_frames (positive : 0 < run.stride) (i : Nat) : (run.frames count i).Nodup :=
  List.nodup_range' _ positive

end Loops

theorem processors_frames {count stride : Nat} (positive : 0 < stride) :
    ((List.range stride).flatMap fun start => (Run.processor stride start).frames count start).Perm
      (List.range count) := by
  have frames {start frame : Nat} (bound : start < stride) :
      frame ∈ (Run.processor stride start).frames count start ↔
        frame < count ∧ frame % stride = start :=
    Run.mem_frames positive bound
  have nodup : ((List.range stride).flatMap fun start =>
      (Run.processor stride start).frames count start).Nodup := by
    rw [List.nodup_flatMap]
    refine ⟨fun start _ => (Run.processor stride start).nodup_frames positive start, ?_⟩
    refine List.nodup_range.imp_of_mem ?_
    intro first second firstBound secondBound different frame inFirst inSecond
    have one := ((frames (List.mem_range.mp firstBound)).mp inFirst).2
    have two := ((frames (List.mem_range.mp secondBound)).mp inSecond).2
    exact different (one.symm.trans two)
  rw [List.perm_ext_iff_of_nodup nodup List.nodup_range]
  intro frame
  rw [List.mem_flatMap, List.mem_range]
  constructor
  · rintro ⟨start, bound, member⟩
    exact ((frames (List.mem_range.mp bound)).mp member).1
  · intro inside
    have bound := Nat.mod_lt frame positive
    exact ⟨frame % stride, List.mem_range.mpr bound, (frames bound).mpr ⟨inside, rfl⟩⟩

theorem loops_agree {nbuffer count : Nat} (ring : 0 < nbuffer) (nbufferInt : nbuffer < 2 ^ 31)
    (countInt : count < 2 ^ 31) :
    (∀ fuel > count, Run.buffer.calls nbuffer count fuel Run.buffer.first =
      some ((List.range count).map fun i => ⟨i % nbuffer, i⟩)) ∧
    ∀ stride > 0, stride ∣ nbuffer → ∃ calls : Nat → List Index,
      (∀ start < stride,
        (∀ fuel > count, (Run.processor stride start).calls nbuffer count fuel
          (Run.processor stride start).first = some (calls start)) ∧
        (calls start).Pairwise fun earlier later => earlier.i < later.i) ∧
      ((List.range stride).flatMap calls).Perm
        ((List.range count).map fun i => ⟨i % nbuffer, i⟩) := by
  constructor
  · intro fuel enough
    have regular : Run.buffer.Regular nbuffer := ⟨ring, Nat.one_pos, one_dvd nbuffer⟩
    have frames : Run.buffer.frames count 0 = List.range count := by
      rw [Run.frames, Run.stride, Nat.sub_zero, Nat.sub_self, Nat.add_zero, Nat.div_one,
        List.range_eq_range']
    rw [Run.calls_regular regular nbufferInt countInt enough, Run.start, frames]
    rfl
  · intro stride positive divides
    refine ⟨fun start =>
      ((Run.processor stride start).frames count start).map (onSlot nbuffer), ?_, ?_⟩
    · intro start bound
      constructor
      · intro fuel enough
        have regular : (Run.processor stride start).Regular nbuffer := ⟨ring, bound, divides⟩
        exact Run.calls_regular regular nbufferInt countInt enough
      · rw [List.pairwise_map]
        exact (Run.processor stride start).pairwise_frames positive start
    · rw [← List.map_flatMap]
      exact (processors_frames positive).map (onSlot nbuffer)

theorem loops_agree_ring_of_six :
    (∀ fuel > 8, Run.buffer.calls 6 8 fuel Run.buffer.first =
      some ((List.range 8).map fun i => ⟨i % 6, i⟩)) ∧
    ∃ calls : Nat → List Index, ((List.range 3).flatMap calls).Perm
      ((List.range 8).map fun i => ⟨i % 6, i⟩) := by
  have both := @loops_agree 6 8 (by decide) (by decide) (by decide)
  obtain ⟨calls, _, shared⟩ := both.2 3 (by decide) (by decide)
  exact ⟨both.1, calls, shared⟩

end RockAMali
