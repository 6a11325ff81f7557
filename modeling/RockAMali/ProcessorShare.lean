import RockAMali.DataFlow
import RockAMali.Programs

/-!
The frames of a processing thread. Its loop meets the slots of its offset in
order and lap after lap, whether or not the number of processing threads divides
the size of the ring, so that it has the frames of these slots in order.
-/

namespace RockAMali

open Relay

theorem filter_range_next {holds : Nat → Bool} {first next : Nat} (later : first < next)
    (found : holds first = true) (between : ∀ i, first < i → i < next → holds i = false) :
    (List.range next).filter holds = (List.range first).filter holds ++ [first] := by
  obtain ⟨gap, rfl⟩ := Nat.exists_eq_add_of_le (Nat.succ_le_of_lt later)
  have none : (List.map (fun i => first.succ + i) (List.range gap)).filter holds = [] := by
    rw [List.filter_eq_nil_iff]
    intro i member
    obtain ⟨step, inside, rfl⟩ := List.mem_map.mp member
    have bound := List.mem_range.mp inside
    rw [between (first.succ + step) (by omega) (by omega)]
    decide
  rw [List.range_add, List.filter_append, none, List.append_nil, List.range_succ,
    List.filter_append, List.filter_cons_of_pos found, List.filter_nil]

theorem le_of_offset {stride start first next : Nat} (firstOffset : first % stride = start)
    (nextOffset : next % stride = start) (later : first < next) : first + stride ≤ next := by
  have same : first ≡ next [MOD stride] := firstOffset.trans nextOffset.symm
  have divides := (Nat.modEq_iff_dvd' (Nat.le_of_lt later)).mp same
  have least := Nat.le_of_dvd (Nat.sub_pos_of_lt later) divides
  omega

section Processor

variable {nbuffer stride start : Nat} (startBound : start < stride) (fits : stride ≤ nbuffer)

def Run.lap (nbuffer : Nat) (run : Run) (step : Nat) : Nat :=
  visits (run.slot nbuffer) step (run.slot nbuffer step)

include startBound fits

theorem Run.visits_processor (step : Nat) {slot : Nat} (inside : slot < nbuffer)
    (offset : slot % stride = start) :
    visits ((Run.processor stride start).slot nbuffer) step slot =
      (Run.processor stride start).lap nbuffer step +
        if slot < (Run.processor stride start).slot nbuffer step then 1 else 0 := by
  induction step generalizing slot with
  | zero =>
      have least : start ≤ slot := offset ▸ Nat.mod_le slot stride
      have before : ¬slot < (Run.processor stride start).slot nbuffer 0 := Nat.not_lt.mpr least
      rw [if_neg before, Run.lap, visits_zero, visits_zero]
  | succ step ih =>
      obtain ⟨here, hereOffset⟩ := Run.slot_processor startBound fits step
      obtain ⟨there, thereOffset⟩ := Run.slot_processor startBound fits (step + 1)
      have next := Run.slot_succ nbuffer (.processor stride start) step
      have now := ih inside offset
      have ahead := ih there thereOffset
      rw [Run.lap, visits_succ, visits_succ, now, ahead]
      have gap := fun later => le_of_offset hereOffset offset later
      have least : start ≤ slot := offset ▸ Nat.mod_le slot stride
      have lowest := hereOffset ▸ Nat.mod_le _ stride
      rw [Run.nextSlot] at next
      generalize (Run.processor stride start).slot nbuffer step = first at *
      generalize (Run.processor stride start).slot nbuffer (step + 1) = second at *
      split at next
      · -- the loop goes back to its first slot, and has met all of its slots
        split_ifs <;> omega
      · split_ifs <;> omega

theorem Run.lap_processor (step : Nat) :
    (Run.processor stride start).lap nbuffer (step + 1) =
      (Run.processor stride start).lap nbuffer step +
        if (Run.processor stride start).slot nbuffer step + stride > nbuffer - 1 then 1 else 0 := by
  obtain ⟨there, offset⟩ := Run.slot_processor startBound fits (step + 1)
  obtain ⟨_, hereOffset⟩ := Run.slot_processor startBound fits step
  have lowest := hereOffset ▸ Nat.mod_le _ stride
  have next := Run.slot_succ nbuffer (.processor stride start) step
  have ahead := Run.visits_processor startBound fits step there offset
  rw [Run.nextSlot] at next
  rw [Run.lap, visits_succ, ahead]
  generalize (Run.processor stride start).slot nbuffer step = first at *
  generalize (Run.processor stride start).slot nbuffer (step + 1) = second at *
  split at next <;> split_ifs <;> omega

omit startBound fits in
theorem offset_in_lap {first laps i : Nat} (here : first < nbuffer)
    (hereOffset : first % stride = start) (offset : i % nbuffer % stride = start)
    (after : first + nbuffer * laps < i) (within : i < nbuffer * (laps + 1)) :
    i = i % nbuffer + nbuffer * laps ∧ first + stride ≤ i % nbuffer := by
  have lap : i / nbuffer = laps := by
    rw [Nat.div_eq_iff (by omega), Nat.mul_comm laps]
    rw [Nat.mul_succ] at within
    omega
  have place := Nat.mod_add_div i nbuffer
  rw [lap] at place
  exact ⟨place.symm, le_of_offset hereOffset offset (by omega)⟩

theorem Run.frames_processor (step : Nat) :
    (List.range step).map (fun visit => (Run.processor stride start).slot nbuffer visit +
        nbuffer * (Run.processor stride start).lap nbuffer visit) =
      (List.range ((Run.processor stride start).slot nbuffer step +
        nbuffer * (Run.processor stride start).lap nbuffer step)).filter
          fun i => i % nbuffer % stride = start := by
  induction step with
  | zero =>
      rw [Run.lap, visits_zero, Run.slot_zero, Run.start, Nat.mul_zero, Nat.add_zero,
        List.range_zero, List.map_nil, eq_comm, List.filter_eq_nil_iff]
      intro i member
      have before := List.mem_range.mp member
      rw [Nat.mod_eq_of_lt (by omega : i < nbuffer), Nat.mod_eq_of_lt (by omega : i < stride)]
      simp only [decide_eq_true_eq]
      omega
  | succ step ih =>
      obtain ⟨here, hereOffset⟩ := Run.slot_processor startBound fits step
      have next := Run.slot_succ nbuffer (.processor stride start) step
      have lap := Run.lap_processor startBound fits step
      rw [Run.nextSlot] at next
      rw [List.range_succ, List.map_append, ih, List.map_singleton]
      generalize (Run.processor stride start).slot nbuffer step = first at *
      generalize (Run.processor stride start).lap nbuffer step = laps at *
      have found : decide ((first + nbuffer * laps) % nbuffer % stride = start) = true := by
        rw [Nat.add_mul_mod_self_left, Nat.mod_eq_of_lt here, decide_eq_true_eq]
        exact hereOffset
      have rest : nbuffer * (laps + 1) = nbuffer * laps + nbuffer := Nat.mul_succ nbuffer laps
      split at next
      · rename_i last
        rw [next, lap, if_pos last]
        refine (filter_range_next (by omega) found ?_).symm
        intro i after before
        rw [decide_eq_false_iff_not]
        intro offset
        by_cases within : i < nbuffer * (laps + 1)
        · have gap := offset_in_lap here hereOffset offset after within
          have inside := Nat.mod_lt i (by omega : 0 < nbuffer)
          omega
        · -- in the next lap, but before the first slot of the offset
          obtain ⟨slot, rfl⟩ := Nat.exists_eq_add_of_le (Nat.le_of_not_lt within)
          rw [Nat.mul_add_mod, Nat.mod_eq_of_lt (by omega : slot < nbuffer)] at offset
          have least := offset ▸ Nat.mod_le slot stride
          omega
      · rename_i inside
        rw [next, lap, if_neg inside, Nat.add_zero]
        refine (filter_range_next (by omega) found ?_).symm
        intro i after before
        rw [decide_eq_false_iff_not]
        intro offset
        have gap := offset_in_lap here hereOffset offset after (by omega)
        omega

end Processor

structure Program.Shares (program : Program) (share : Nat → Nat) : Prop where
  own : ∀ id < program.threads, ∀ first second, (program.thread id).iteration = [first, second] →
    first.action = .kernel → ∀ step, share (program.frameOf id step) = id
  earlier : ∀ id < program.threads, ∀ first second,
    (program.thread id).iteration = [first, second] → first.action = .kernel → ∀ step,
      (List.range step).map (program.frameOf id) =
        (List.range (program.frameOf id step)).filter fun i => share i = id

section Programs

variable {program : Program} {id stride start : Nat} (startBound : start < stride)
  (fits : stride ≤ program.nbuffer) (run : (program.thread id).run = .processor stride start)

include startBound fits run

theorem Program.frameOf_offset (step : Nat) :
    program.frameOf id step % program.nbuffer % stride = start := by
  obtain ⟨here, offset⟩ := Run.slot_processor startBound fits step
  rw [Program.frameOf, Nat.add_mul_mod_self_left, Program.slot, run, Nat.mod_eq_of_lt here]
  exact offset

theorem Program.frameOf_earlier (step : Nat) :
    (List.range step).map (program.frameOf id) =
      (List.range (program.frameOf id step)).filter
        fun i => i % program.nbuffer % stride = start := by
  have frames : program.frameOf id = fun visit =>
      (Run.processor stride start).slot program.nbuffer visit +
        program.nbuffer * (Run.processor stride start).lap program.nbuffer visit := by
    have slots : program.slot id = (Run.processor stride start).slot program.nbuffer := by
      funext visit
      rw [Program.slot, run]
    funext visit
    rw [Program.frameOf, slots]
    rfl
  rw [frames]
  exact Run.frames_processor startBound fits step

end Programs

theorem process_shares {nbuffer count stride : Nat} (fits : stride ≤ nbuffer) :
    (process nbuffer count (stride + 2)).Shares fun i => i % nbuffer % stride + 2 := by
  constructor
  · rintro (_ | _ | id) bound first second holds _ step
    · cases holds
    · cases holds
    · simp only [process] at bound
      have offset := Program.frameOf_offset (by omega : id < stride) fits
        (rfl : ((process nbuffer count (stride + 2)).thread (id + 2)).run = .processor stride id)
        step
      exact congrArg (fun start => start + 2) offset
  · rintro (_ | _ | id) bound first second holds _ step
    · cases holds
    · cases holds
    · simp only [process] at bound
      have earlier := Program.frameOf_earlier (by omega : id < stride) fits
        (rfl : ((process nbuffer count (stride + 2)).thread (id + 2)).run = .processor stride id)
        step
      simp only [Nat.add_right_cancel_iff]
      exact earlier

theorem receive_shares {nbuffer count stride : Nat} (fits : stride ≤ nbuffer) :
    (receive nbuffer count (stride + 3)).Shares fun i => i % nbuffer % stride + 3 := by
  constructor
  · rintro (_ | _ | _ | id) bound first second holds _ step
    · cases holds
    · cases holds
    · cases holds
    · simp only [receive] at bound
      have offset := Program.frameOf_offset (by omega : id < stride) fits
        (rfl : ((receive nbuffer count (stride + 3)).thread (id + 3)).run = .processor stride id)
        step
      exact congrArg (fun start => start + 3) offset
  · rintro (_ | _ | _ | id) bound first second holds _ step
    · cases holds
    · cases holds
    · cases holds
    · simp only [receive] at bound
      have earlier := Program.frameOf_earlier (by omega : id < stride) fits
        (rfl : ((receive nbuffer count (stride + 3)).thread (id + 3)).run = .processor stride id)
        step
      simp only [Nat.add_right_cancel_iff]
      exact earlier

end RockAMali
