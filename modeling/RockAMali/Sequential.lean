import Mathlib.Data.List.Basic
import RockAMali.Programs
import RockAMali.DataFlow

/-!
The loop of `process_sequential.cpp`: generator, processor, raw store and result
store take turns on slot 0, in one thread.
-/

namespace RockAMali

structure Sequential (α β : Type*) where
  access : Ring × Nat → Taccess
  data : Data α β
  image : β

structure Sequential.Initial {α β : Type*} (state : Sequential α β) : Prop where
  free : ∀ place, state.access place = statusFree
  stored : state.data.stored = []
  storedR : state.data.storedR = []

section Semantics

variable {α β : Type*} (frame : Nat → α) (kernel : α → β)

/-- A whole hold in one thread; nothing if it waits for ever or exits. -/
def Hold.execute (hold : Hold) (index : Index) (state : Sequential α β) :
    Option (Sequential α β) :=
  match waitForStatus (state.access (hold.ring, index.n)) hold.waitStatus hold.state with
  | none => none
  | some held =>
      match RockAMali.setStatus held hold.state hold.setStatus with
      | none => none
      | some status =>
          let outcome := hold.perform frame kernel index state.data state.image
          some ⟨Function.update state.access (hold.ring, index.n) status, outcome.1, outcome.2⟩

def executeAll (index : Index) : List Hold → Sequential α β → Option (Sequential α β)
  | [], state => some state
  | hold :: holds, state => (hold.execute frame kernel index state).bind (executeAll index holds)

def processSequential.iteration : List Hold :=
  DataGenerator.iteration statusFree statusFilled ++
    DataProcessor.iteration statusFilled statusProcessed statusFree statusFilled ++
    DataStore.iteration .images statusProcessed statusFree ++
    DataStore.iteration .results statusFilled statusFree

/-- for(unsigned int i=0;i<count;++i) -/
def processSequential : Nat → Sequential α β → Option (Sequential α β)
  | 0, state => some state
  | i + 1, state =>
      (processSequential i state).bind (executeAll frame kernel ⟨0, i⟩ processSequential.iteration)

end Semantics

variable {α β : Type*} {frame : Nat → α} {kernel : α → β}

theorem Hold.execute_eq {hold : Hold} {index : Index} {state : Sequential α β}
    (free : state.access (hold.ring, index.n) = hold.waitStatus) :
    hold.execute frame kernel index state =
      some ⟨Function.update state.access (hold.ring, index.n) hold.setStatus,
        (hold.perform frame kernel index state.data state.image).1,
        (hold.perform frame kernel index state.data state.image).2⟩ := by
  simp [Hold.execute, free]

theorem processSequential_step {state : Sequential α β} (i : Nat)
    (images : state.access (.images, 0) = statusFree)
    (results : state.access (.results, 0) = statusFree) :
    ∃ next, executeAll frame kernel ⟨0, i⟩ processSequential.iteration state = some next ∧
      next.access (.images, 0) = statusFree ∧ next.access (.results, 0) = statusFree ∧
      next.data.stored = state.data.stored ++ [frame i] ∧
      next.data.storedR = state.data.storedR ++ [kernel (frame i)] := by
  simp [processSequential.iteration, DataGenerator.iteration, DataProcessor.iteration,
    DataStore.iteration, executeAll, Hold.execute_eq, images, results]

theorem processSequential_stores {state : Sequential α β} (first : state.Initial) (count : Nat) :
    ∃ last, processSequential frame kernel count state = some last ∧
      last.access (.images, 0) = statusFree ∧ last.access (.results, 0) = statusFree ∧
      last.data.stored = (List.range count).map frame ∧
      last.data.storedR = (List.range count).map fun i => kernel (frame i) := by
  induction count with
  | zero =>
      refine ⟨state, ?_, first.free _, first.free _, ?_, ?_⟩
      · rw [processSequential]
      · simp [first.stored]
      · simp [first.storedR]
  | succ count ih =>
      obtain ⟨before, ran, images, results, stored, storedR⟩ := ih
      obtain ⟨next, taken, nextImages, nextResults, nextStored, nextStoredR⟩ :=
        processSequential_step count images results
      refine ⟨next, ?_, nextImages, nextResults, ?_, ?_⟩
      · rw [processSequential, ran]
        exact taken
      · rw [nextStored, stored, List.range_succ, List.map_append]
        rfl
      · rw [nextStoredR, storedR, List.range_succ, List.map_append]
        rfl

end RockAMali
