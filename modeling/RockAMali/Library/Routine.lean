import Mathlib.Data.List.FinRange
import Mathlib.Logic.Function.Basic

/-!
Routines on an array: programs that read and write its cells one at a time, and
what such a program does to the array where nothing else writes it meanwhile.
-/

universe u v w

inductive Routine (ι : Type u) (τ : Type v) (ρ : Type w)
  | done (result : ρ)
  | read (cell : ι) (next : τ → Routine ι τ ρ)
  | write (cell : ι) (value : τ) (next : Routine ι τ ρ)

namespace Routine

variable {ι : Type u} {τ : Type v} {ρ : Type w} {ξ : Type*}

def map (finish : ρ → ξ) : Routine ι τ ρ → Routine ι τ ξ
  | done result => done (finish result)
  | read cell next => read cell fun value => (next value).map finish
  | write cell value next => write cell value (next.map finish)

variable [DecidableEq ι]

def step : Routine ι τ ρ → (ι → τ) → Routine ι τ ρ × (ι → τ)
  | done result, array => (done result, array)
  | read cell next, array => (next (array cell), array)
  | write cell value next, array => (next, Function.update array cell value)

def run : Routine ι τ ρ → (ι → τ) → (ι → τ) × ρ
  | done result, array => (array, result)
  | read cell next, array => (next (array cell)).run array
  | write cell value next, array => next.run (Function.update array cell value)

theorem run_step (routine : Routine ι τ ρ) (array : ι → τ) :
    (routine.step array).1.run (routine.step array).2 = routine.run array := by
  cases routine <;> rfl

theorem run_map (finish : ρ → ξ) (routine : Routine ι τ ρ) (array : ι → τ) :
    (routine.map finish).run array =
      ((routine.run array).1, finish (routine.run array).2) := by
  induction routine generalizing array with
  | done => rfl
  | read cell next ih => exact ih _ array
  | write cell value next ih => exact ih _

def writeEach (values : ι → τ) (result : ρ) : List ι → Routine ι τ ρ
  | [] => done result
  | cell :: cells => write cell (values cell) (writeEach values result cells)

def readEach (finish : (ι → τ) → ρ) (copied : ι → τ) : List ι → Routine ι τ ρ
  | [] => done (finish copied)
  | cell :: cells => read cell fun value =>
      readEach finish (Function.update copied cell value) cells

theorem writeEach_run (values : ι → τ) (result : ρ) (cells : List ι) (array : ι → τ) :
    (writeEach values result cells).run array =
      (fun cell => if cell ∈ cells then values cell else array cell, result) := by
  induction cells generalizing array with
  | nil => simp [writeEach, run]
  | cons first cells ih =>
      simp only [writeEach, run, ih, Prod.mk.injEq, and_true]
      funext cell
      by_cases later : cell ∈ cells
      · simp [later]
      · by_cases here : cell = first
        · simp [here]
        · simp [later, here]

theorem readEach_run (finish : (ι → τ) → ρ) (copied : ι → τ) (cells : List ι) (array : ι → τ) :
    (readEach finish copied cells).run array =
      (array, finish fun cell => if cell ∈ cells then array cell else copied cell) := by
  induction cells generalizing copied with
  | nil => simp [readEach, run]
  | cons first cells ih =>
      simp only [readEach, run, ih, Prod.mk.injEq, true_and]
      congr 1
      funext cell
      by_cases later : cell ∈ cells
      · simp [later]
      · by_cases here : cell = first
        · simp [here]
        · simp [later, here]

section Frames

variable {width : Nat}

theorem writeEach_frame (values array : Fin width → τ) (result : ρ) :
    (writeEach values result (List.finRange width)).run array = (values, result) := by
  simp [writeEach_run]

theorem readEach_frame (finish : (Fin width → τ) → ρ) (copied array : Fin width → τ) :
    (readEach finish copied (List.finRange width)).run array = (array, finish array) := by
  simp [readEach_run]

end Frames

/-! Agents that run routines on the arrays of a store, one operation at a time
and in any order. `before` is the store as it was, or as the routines have left
it that are done; `begun` is what an agent started with, `rest` what is left. -/

structure Interleaved (now before : Nat → ι → τ) (slot : Nat → Nat)
    (begun rest : Nat → Option (Routine ι τ ρ)) : Prop where
  untouched : ∀ place, (∀ id, slot id = place → rest id = none) → now place = before place
  through : ∀ id routine, rest id = some routine →
    ∃ whole, begun id = some whole ∧
      routine.run (now (slot id)) = whole.run (before (slot id))

namespace Interleaved

variable {now before : Nat → ι → τ} {slot : Nat → Nat}
  {begun rest : Nat → Option (Routine ι τ ρ)} {id : Nat} {routine : Routine ι τ ρ}

theorem congr (interleaved : Interleaved now before slot begun rest) {slot' : Nat → Nat}
    {begun' : Nat → Option (Routine ι τ ρ)}
    (same : ∀ id, rest id ≠ none → slot' id = slot id ∧ begun' id = begun id) :
    Interleaved now before slot' begun' rest := by
  constructor
  · intro place nobody
    apply interleaved.untouched
    intro id here
    by_contra busy
    exact busy (nobody id ((same id busy).1.trans here))
  · intro id routine found
    obtain ⟨slots, starts⟩ := same id (by simp [found])
    rw [slots, starts]
    exact interleaved.through id routine found

theorem starts (interleaved : Interleaved now before slot begun rest) (idle : rest id = none)
    (whole : begun id = some routine)
    (alone : ∀ other, other ≠ id → slot other = slot id → rest other = none) :
    Interleaved now before slot begun (Function.update rest id (some routine)) := by
  have nobody : ∀ other, slot other = slot id → rest other = none := by
    intro other here
    by_cases same : other = id
    · rw [same]
      exact idle
    · exact alone other same here
  constructor
  · intro place free
    apply interleaved.untouched
    intro other here
    by_cases same : other = id
    · rw [same]
      exact idle
    · have later := free other here
      rwa [Function.update_of_ne same] at later
  · intro other found routineFound
    by_cases same : other = id
    · subst same
      rw [Function.update_self] at routineFound
      obtain rfl := Option.some.inj routineFound
      exact ⟨_, whole, by rw [interleaved.untouched _ nobody]⟩
    · rw [Function.update_of_ne same] at routineFound
      exact interleaved.through other found routineFound

theorem proceeds (interleaved : Interleaved now before slot begun rest)
    (found : rest id = some routine)
    (alone : ∀ other, other ≠ id → slot other = slot id → rest other = none) :
    Interleaved (Function.update now (slot id) (routine.step (now (slot id))).2) before slot begun
      (Function.update rest id (some (routine.step (now (slot id))).1)) := by
  constructor
  · intro place free
    by_cases here : place = slot id
    · have busy := free id here.symm
      simp at busy
    · rw [Function.update_of_ne here]
      apply interleaved.untouched
      intro other there
      by_cases same : other = id
      · exact (here (same ▸ there).symm).elim
      · have later := free other there
        rwa [Function.update_of_ne same] at later
  · intro other left leftFound
    by_cases same : other = id
    · subst same
      rw [Function.update_self] at leftFound
      obtain rfl := Option.some.inj leftFound
      obtain ⟨whole, started, runs⟩ := interleaved.through other routine found
      exact ⟨whole, started, by rw [Function.update_self, run_step, runs]⟩
    · rw [Function.update_of_ne same] at leftFound
      obtain ⟨whole, started, runs⟩ := interleaved.through other left leftFound
      have elsewhere : slot other ≠ slot id := by
        intro here
        simp [alone other same here] at leftFound
      exact ⟨whole, started, by rw [Function.update_of_ne elsewhere, runs]⟩

theorem ends (interleaved : Interleaved now before slot begun rest) {result : ρ}
    (found : rest id = some (done result))
    (alone : ∀ other, other ≠ id → slot other = slot id → rest other = none) :
    (∃ whole, begun id = some whole ∧ whole.run (before (slot id)) = (now (slot id), result)) ∧
      Interleaved now (Function.update before (slot id) (now (slot id))) slot begun
        (Function.update rest id none) := by
  constructor
  · obtain ⟨whole, started, runs⟩ := interleaved.through id _ found
    exact ⟨whole, started, runs.symm⟩
  · constructor
    · intro place free
      by_cases here : place = slot id
      · rw [here, Function.update_self]
      · rw [Function.update_of_ne here]
        apply interleaved.untouched
        intro other there
        by_cases same : other = id
        · exact (here (same ▸ there).symm).elim
        · have later := free other there
          rwa [Function.update_of_ne same] at later
    · intro other left leftFound
      by_cases same : other = id
      · subst same
        simp at leftFound
      · rw [Function.update_of_ne same] at leftFound
        obtain ⟨whole, started, runs⟩ := interleaved.through other left leftFound
        have elsewhere : slot other ≠ slot id := by
          intro here
          simp [alone other same here] at leftFound
        exact ⟨whole, started, by rw [Function.update_of_ne elsewhere, runs]⟩

end Interleaved

end Routine
