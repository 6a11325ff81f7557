import Mathlib.Data.List.Induction
import Mathlib.Logic.Basic

/-!
Runs of an arbitrary transition system: the invariant rule, progress from a
rank on the pending work, and runs that end because a measure decreases. Where
the steps have labels, a run is its list of labels, which invariants can count.
-/

namespace Transition

universe u v

inductive Reachable {σ : Type u} (initial : σ → Prop) (next : σ → σ → Prop) : σ → Prop
  | start {state} : initial state → Reachable initial next state
  | step {state successor} : Reachable initial next state → next state successor →
      Reachable initial next successor

theorem Reachable.invariant {σ : Type u} {initial : σ → Prop} {next : σ → σ → Prop}
    {holds : σ → Prop} (base : ∀ state, initial state → holds state)
    (preserved : ∀ state successor, holds state → next state successor → holds successor)
    {state : σ} (reachable : Reachable initial next state) : holds state := by
  induction reachable with
  | start first => exact base _ first
  | step _ taken ih => exact preserved _ _ ih taken

/-- A forward simulation: a step of the finer system is a step of the coarser one
or none of it, where an invariant of the finer one holds. -/
theorem Reachable.simulates {σ : Type u} {τ : Type v} {initial : σ → Prop} {next : σ → σ → Prop}
    {coarseInitial : τ → Prop} {coarseNext : τ → τ → Prop} {holds : σ → Prop} (coarse : σ → τ)
    (base : ∀ state, initial state → holds state ∧ coarseInitial (coarse state))
    (simulated : ∀ state successor, holds state → next state successor →
      holds successor ∧
        (coarse successor = coarse state ∨ coarseNext (coarse state) (coarse successor)))
    {state : σ} (reachable : Reachable initial next state) :
    holds state ∧ Reachable coarseInitial coarseNext (coarse state) := by
  induction reachable with
  | start first =>
      obtain ⟨held, coarseFirst⟩ := base _ first
      exact ⟨held, .start coarseFirst⟩
  | step _ taken ih =>
      obtain ⟨held, reached⟩ := ih
      obtain ⟨heldNext, same | stepped⟩ := simulated _ _ held taken
      · exact ⟨heldNext, same ▸ reached⟩
      · exact ⟨heldNext, .step reached stepped⟩

theorem Reachable.related {σ : Type u} {τ : Type v} {initial : σ → Prop} {next : σ → σ → Prop}
    {coarseInitial : τ → Prop} {coarseNext : τ → τ → Prop} {relates : σ → τ → Prop}
    (base : ∀ state, initial state → ∃ coarse, coarseInitial coarse ∧ relates state coarse)
    (simulated : ∀ state successor coarse, Reachable coarseInitial coarseNext coarse →
      relates state coarse → next state successor →
        relates successor coarse ∨
          ∃ coarseSuccessor, coarseNext coarse coarseSuccessor ∧ relates successor coarseSuccessor)
    {state : σ} (reachable : Reachable initial next state) :
    ∃ coarse, Reachable coarseInitial coarseNext coarse ∧ relates state coarse := by
  induction reachable with
  | start first =>
      obtain ⟨coarse, coarseFirst, related⟩ := base _ first
      exact ⟨coarse, .start coarseFirst, related⟩
  | step _ taken ih =>
      obtain ⟨coarse, reached, related⟩ := ih
      rcases simulated _ _ coarse reached related taken with same | ⟨next, stepped, after⟩
      · exact ⟨coarse, reached, same⟩
      · exact ⟨next, .step reached stepped, after⟩

/-- When every blocked agent waits for a pending agent of smaller rank, some
pending agent is not blocked. -/
theorem exists_enabled {τ : Type v} {pending blocked : τ → Prop} (rank : τ → Nat)
    (waits : ∀ agent, pending agent → blocked agent →
      ∃ other, pending other ∧ rank other < rank agent)
    {agent : τ} (unfinished : pending agent) : ∃ other, pending other ∧ ¬blocked other := by
  generalize value : rank agent = bound
  induction bound using Nat.strongRecOn generalizing agent with
  | ind bound ih =>
      by_cases stopped : blocked agent
      · obtain ⟨other, otherPending, smaller⟩ := waits agent unfinished stopped
        exact ih (rank other) (by omega) otherPending rfl
      · exact ⟨agent, unfinished, stopped⟩

theorem Reachable.exists_final {σ : Type u} {initial final : σ → Prop} {next : σ → σ → Prop}
    (measure : σ → Nat)
    (progress : ∀ state, Reachable initial next state →
      final state ∨ ∃ successor, next state successor ∧ measure successor < measure state)
    {state : σ} (reachable : Reachable initial next state) :
    ∃ last, Reachable initial next last ∧ final last := by
  generalize value : measure state = bound
  induction bound using Nat.strongRecOn generalizing state with
  | ind bound ih =>
      rcases progress state reachable with done | ⟨successor, taken, smaller⟩
      · exact ⟨state, reachable, done⟩
      · exact ih (measure successor) (by omega) (.step reachable taken) rfl

section Labelled

variable {σ : Type u} {α : Type v} (step : σ → α → Option σ)

def run (state : σ) : List α → Option σ
  | [] => some state
  | label :: rest => (step state label).bind fun next => run next rest

def Along (meets : σ → α → Prop) (state : σ) : List α → Prop
  | [] => True
  | label :: rest => meets state label ∧ ∀ next ∈ step state label, Along meets next rest

instance Along.decidable (meets : σ → α → Prop) [∀ state label, Decidable (meets state label)] :
    (state : σ) → (labels : List α) → Decidable (Along step meets state labels)
  | _, [] => isTrue trivial
  | state, label :: rest =>
      have := fun next => Along.decidable meets next rest
      inferInstanceAs (Decidable (meets state label ∧ ∀ next ∈ step state label, _))

variable {step} {first last : σ} {past : List α} {label : α} {meets : σ → α → Prop}

theorem run_append_singleton :
    run step first (past ++ [label]) = (run step first past).bind fun current => step current label := by
  induction past generalizing first with
  | nil => simp [run]
  | cons earlier past ih => simp [run, ih, Option.bind_assoc]

theorem along_append_singleton : Along step meets first (past ++ [label]) ↔
    Along step meets first past ∧ ∀ current, run step first past = some current → meets current label := by
  induction past generalizing first with
  | nil => simp [Along, run]
  | cons earlier past ih =>
      simp only [List.cons_append, Along, ih, run, Option.bind_eq_some_iff, Option.mem_def, and_assoc,
        and_congr_right_iff]
      intro _
      constructor
      · intro later
        refine ⟨fun next taken => (later next taken).1, ?_⟩
        rintro current ⟨next, taken, ran⟩
        exact (later next taken).2 current ran
      · rintro ⟨later, now⟩ next taken
        exact ⟨later next taken, fun current ran => now current ⟨next, taken, ran⟩⟩

theorem along_of_prefix {labels : List α} (before : past <+: labels)
    (along : Along step meets first labels) : Along step meets first past := by
  obtain ⟨rest, rfl⟩ := before
  induction past generalizing first with
  | nil => trivial
  | cons earlier past ih =>
      obtain ⟨now, later⟩ := along
      exact ⟨now, fun next taken => ih (later next taken)⟩

/-- The invariant rule for a property of the labels so far and the state. -/
theorem run_rule {labels : List α} (holds : List α → σ → Prop) (base : holds [] first)
    (preserved : ∀ past label current next, run step first past = some current →
      holds past current → step current label = some next → holds (past ++ [label]) next)
    (ran : run step first labels = some last) : holds labels last := by
  induction labels using List.reverseRecOn generalizing last with
  | nil =>
      obtain rfl : first = last := by simpa [run] using ran
      exact base
  | append_singleton past label ih =>
      rw [run_append_singleton] at ran
      obtain ⟨current, before, taken⟩ := Option.bind_eq_some_iff.mp ran
      exact preserved past label current last before (ih before) taken

end Labelled

end Transition
