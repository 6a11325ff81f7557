import Mathlib.Data.List.Chain
import RockAMali.DropCount

/-!
The drop log of `udp_receive.cpp` as a time line of frame numbers. The branch
without a drop appends its record on the first frame too, which the branch with
a drop does not.
-/

namespace RockAMali

/-- For each frame after the first, as many records as its index is ahead of the
one before, each with the number of indexes between the two. -/
def timeLine (first : UInt32) (rest : List UInt32) : List Int :=
  (pairs first rest).flatMap fun pair =>
    List.replicate (pair.2.toNat - pair.1.toNat) ((pair.2.toNat - pair.1.toNat - 1 : Nat) : Int)

structure Increasing (indexes : List UInt32) : Prop where
  chain : indexes.IsChain fun previous index => previous.toNat < index.toNat
  bounded : ∀ index ∈ indexes, index.toNat < 2 ^ 31

theorem Increasing.tail {first : UInt32} {rest : List UInt32}
    (increasing : Increasing (first :: rest)) : Increasing rest := by
  constructor
  · exact increasing.chain.tail
  · exact fun index member => increasing.bounded index (List.mem_cons_of_mem first member)

theorem Increasing.take {indexes : List UInt32} (increasing : Increasing indexes) (count : Nat) :
    Increasing (indexes.take count) := by
  constructor
  · exact increasing.chain.take count
  · exact fun index member => increasing.bounded index (List.mem_of_mem_take member)

theorem Increasing.step {first index : UInt32} {rest : List UInt32}
    (increasing : Increasing (first :: index :: rest)) :
    first.toNat < index.toNat ∧ index.toNat < 2 ^ 31 := by
  constructor
  · exact (List.isChain_cons_cons.mp increasing.chain).1
  · exact increasing.bounded index (by simp)

theorem dropped_of_increasing {previous index : UInt32} (ahead : previous.toNat < index.toNat)
    (bounded : index.toNat < 2 ^ 31) :
    dropped previous index = (index.toNat - previous.toNat - 1 : Nat) := by
  have gap : |increment previous index - 1| = ((index.toNat - previous.toNat - 1 : Nat) : Int) := by
    rw [increment, abs_of_nonneg (by omega)]
    omega
  rw [dropped, gap, narrow32_natCast (by omega), if_pos (by omega)]

theorem Receive.iteration_drops {state : Receive} {index : UInt32} (started : 0 < state.i)
    (ahead : state.prevIndex.toNat < index.toNat) (bounded : index.toNat < 2 ^ 31) :
    (state.iteration true index).drops =
      state.drops ++ List.replicate (index.toNat - state.prevIndex.toNat)
        ((index.toNat - state.prevIndex.toNat - 1 : Nat) : Int) := by
  by_cases next : increment state.prevIndex index = 1
  · have gap : index.toNat - state.prevIndex.toNat = 1 := by
      rw [increment] at next
      omega
    simp [Receive.iteration, next, gap]
  · have number : (((index.toNat - state.prevIndex.toNat - 1 : Nat) : Int) + 1).toNat =
        index.toNat - state.prevIndex.toNat := by omega
    simp only [Receive.iteration, next, ne_eq, not_false_eq_true, if_true, started,
      dropped_of_increasing ahead bounded, number]

theorem Receive.run_drops {state : Receive} {rest : List UInt32} (started : 0 < state.i)
    (increasing : Increasing (state.prevIndex :: rest)) :
    (state.run true rest).drops = state.drops ++ timeLine state.prevIndex rest := by
  induction rest generalizing state with
  | nil => simp [Receive.run, timeLine, pairs]
  | cons index rest ih =>
      obtain ⟨ahead, bounded⟩ := increasing.step
      have appended := Receive.iteration_drops started ahead bounded
      have later : Increasing ((state.iteration true index).prevIndex :: rest) := increasing.tail
      rw [Receive.run, ih (Nat.succ_pos state.i) later, appended, List.append_assoc]
      rfl

def firstRecord (first : UInt32) : List Int := if first = 1 then [0] else []

theorem Receive.iteration_initial_drops (first : UInt32) :
    (Receive.initial.iteration true first).drops = firstRecord first := by
  have one : increment 0 first = 1 ↔ first = 1 := by
    rw [increment, ← UInt32.toNat_inj, UInt32.toNat_zero, UInt32.toNat_one]
    omega
  by_cases next : increment 0 first = 1
  · rw [firstRecord, if_pos (one.mp next)]
    simp [Receive.iteration, Receive.initial, next]
  · rw [firstRecord, if_neg (mt one.mpr next)]
    simp [Receive.iteration, Receive.initial, next]

theorem Receive.initial_drops {first : UInt32} {rest : List UInt32}
    (increasing : Increasing (first :: rest)) :
    (Receive.initial.run true (first :: rest)).drops = firstRecord first ++ timeLine first rest := by
  have started : 0 < (Receive.initial.iteration true first).i := Nat.succ_pos 0
  have later : Increasing ((Receive.initial.iteration true first).prevIndex :: rest) := increasing
  rw [Receive.run, Receive.run_drops started later, Receive.iteration_initial_drops]
  rfl

theorem timeLine_length {first : UInt32} {rest : List UInt32} {index : Nat}
    (increasing : Increasing (first :: rest)) (bound : index < (first :: rest).length) :
    first.toNat + (timeLine first (rest.take index)).length = ((first :: rest)[index]).toNat := by
  induction rest generalizing first index with
  | nil =>
      obtain rfl : index = 0 := by simpa using bound
      simp [timeLine, pairs]
  | cons next rest ih =>
      cases index with
      | zero => simp [timeLine, pairs]
      | succ index =>
          have ahead := increasing.step.1
          have inside : index < (next :: rest).length := by simpa using bound
          have later := ih increasing.tail inside
          simp only [timeLine, List.take_succ_cons, pairs, List.flatMap_cons, List.length_append,
            List.length_replicate, List.getElem_cons_succ] at later ⊢
          omega

structure LogsTimeLine (first : UInt32) (rest : List UInt32) : Prop where
  records : (Receive.initial.run true (first :: rest)).drops = timeLine first rest
  aligned : ∀ index, ∀ bound : index < (first :: rest).length,
    first.toNat + (Receive.initial.run true (first :: rest.take index)).drops.length =
      ((first :: rest)[index]).toNat

theorem logsTimeLine_iff {first : UInt32} {rest : List UInt32}
    (increasing : Increasing (first :: rest)) : LogsTimeLine first rest ↔ first ≠ 1 := by
  have drops := Receive.initial_drops increasing
  constructor
  · intro logged one
    have records := logged.records
    rw [drops] at records
    simp [firstRecord, one] at records
  · intro other
    have none : firstRecord first = [] := by simp [firstRecord, other]
    constructor
    · rw [drops, none, List.nil_append]
    · intro index bound
      rw [Receive.initial_drops (increasing.take (index + 1)), none, List.nil_append]
      exact timeLine_length increasing bound

theorem timeLine_shifted {first : UInt32} {rest : List UInt32} (offset : UInt32)
    (increasing : Increasing (first :: rest))
    (shifted : Increasing ((first :: rest).map (· + offset))) :
    timeLine (first + offset) (rest.map (· + offset)) = timeLine first rest := by
  induction rest generalizing first with
  | nil => rfl
  | cons index rest ih =>
      have later := ih increasing.tail shifted.tail
      have before := increasing.step
      have after := shifted.step
      have gap : (index + offset).toNat - (first + offset).toNat =
          index.toNat - first.toNat := by
        rw [UInt32.toNat_add, UInt32.toNat_add] at after ⊢
        omega
      simp only [timeLine, List.map_cons, pairs, List.flatMap_cons] at later ⊢
      rw [gap, later]

/-- The log is the time line unless the first index is 1, and two runs whose
indexes differ by a constant have one log unless just one of them starts at 1. -/
theorem drop_log_iff {first : UInt32} {rest : List UInt32} (offset : UInt32)
    (increasing : Increasing (first :: rest)) :
    (LogsTimeLine first rest ↔ first ≠ 1) ∧
      (Increasing ((first :: rest).map (· + offset)) →
        ((Receive.initial.run true ((first :: rest).map (· + offset))).drops =
            (Receive.initial.run true (first :: rest)).drops ↔
          (first + offset = 1 ↔ first = 1))) := by
  refine ⟨logsTimeLine_iff increasing, ?_⟩
  intro shifted
  have same := timeLine_shifted offset increasing shifted
  have drops := Receive.initial_drops increasing
  have shiftedDrops := Receive.initial_drops shifted
  rw [List.map_cons, shiftedDrops, drops, same, List.append_cancel_right_eq, firstRecord,
    firstRecord]
  by_cases one : first = 1 <;> by_cases shiftedOne : first + offset = 1 <;> simp [one, shiftedOne]

theorem increasing_five : Increasing [5, 6, 9] := by
  constructor
  · simp
  · simp

theorem increasing_shifted : Increasing ([5, 6, 9].map (· + 2)) := by
  constructor
  · simp
  · simp

theorem drop_log_five : (LogsTimeLine 5 [6, 9] ↔ (5 : UInt32) ≠ 1) ∧
    ((Receive.initial.run true ([5, 6, 9].map (· + 2))).drops =
        (Receive.initial.run true [5, 6, 9]).drops ↔ ((5 : UInt32) + 2 = 1 ↔ (5 : UInt32) = 1)) :=
  ⟨(drop_log_iff 2 increasing_five).1, (drop_log_iff 2 increasing_five).2 increasing_shifted⟩

theorem drop_log_one : Increasing [1, 2] ∧
    (Receive.initial.run true [1, 2]).drops = [0, 0] ∧ timeLine 1 [2] = [0] ∧
      ¬LogsTimeLine 1 [2] := by
  have log : (Receive.initial.run true [1, 2]).drops = [0, 0] := by decide
  have line : timeLine 1 [2] = [0] := by decide
  refine ⟨⟨by simp, by simp⟩, log, line, ?_⟩
  intro logged
  have records := logged.records
  rw [log, line] at records
  simp at records

end RockAMali
