import Mathlib.Data.List.GetD
import Mathlib.Data.Nat.Init
import RockAMali.Library.Transition

/-!
Runs of agents that a scheduler gives turns to, each of them again and again. A
run ends where some agent can always bring it nearer to the end and the turns of
the others do not keep that agent from it.
-/

namespace Transition

universe u v

variable {σ : Type u} {ι : Type v}

structure Fair (agents : ι → Prop) (schedule : Nat → ι) : Prop where
  turns : ∀ time, agents (schedule time)
  again : ∀ agent, agents agent → ∀ time, ∃ later, time ≤ later ∧ schedule later = agent

def execution (step : σ → ι → σ) (schedule : Nat → ι) (first : σ) : Nat → σ
  | 0 => first
  | time + 1 => step (execution step schedule first time) (schedule time)

def beginWith (past : List ι) (schedule : Nat → ι) (time : Nat) : ι :=
  past.getD time (schedule (time - past.length))

section Execution

variable {step : σ → ι → σ} {agents : ι → Prop} {schedule : Nat → ι} {first : σ}

theorem execution_invariant {holds : σ → Prop} (fair : Fair agents schedule) (start : holds first)
    (preserved : ∀ state agent, holds state → agents agent → holds (step state agent))
    (time : Nat) : holds (execution step schedule first time) := by
  induction time with
  | zero => exact start
  | succ time ih => exact preserved _ _ ih (fair.turns time)

theorem execution_stays {time : Nat}
    (stays : ∀ agent, agents agent →
      step (execution step schedule first time) agent = execution step schedule first time)
    (fair : Fair agents schedule) {later : Nat} (after : time ≤ later) :
    execution step schedule first later = execution step schedule first time := by
  induction later, after using Nat.le_induction with
  | base => rfl
  | succ later _ ih => rw [execution, ih, stays _ (fair.turns later)]

theorem Fair.beginWith (fair : Fair agents schedule) {past : List ι}
    (members : ∀ agent ∈ past, agents agent) : Fair agents (beginWith past schedule) := by
  constructor
  · intro time
    by_cases inside : time < past.length
    · rw [Transition.beginWith, List.getD_eq_getElem _ _ inside]
      exact members _ (List.getElem_mem inside)
    · rw [Transition.beginWith, List.getD_eq_default _ _ (Nat.le_of_not_lt inside)]
      exact fair.turns _
  · intro agent member time
    obtain ⟨later, turn, mine⟩ := fair.again agent member time
    refine ⟨past.length + later, by omega, ?_⟩
    rw [Transition.beginWith, List.getD_eq_default _ _ (Nat.le_add_right _ _),
      Nat.add_sub_cancel_left, mine]

theorem execution_beginWith (past : List ι) :
    execution step (beginWith past schedule) first past.length = past.foldl step first := by
  induction past using List.reverseRecOn with
  | nil => rfl
  | append_singleton past agent ih =>
      have same : ∀ time ≤ past.length,
          execution step (beginWith (past ++ [agent]) schedule) first time =
            execution step (beginWith past schedule) first time := by
        intro time bound
        induction time with
        | zero => rfl
        | succ time before =>
            have inside : time < past.length := bound
            rw [execution, execution, before (Nat.le_of_lt bound), beginWith, beginWith,
              List.getD_append _ _ _ _ inside, List.getD_eq_getElem _ _ inside,
              List.getD_eq_getElem _ _ inside]
      have turn : beginWith (past ++ [agent]) schedule past.length = agent := by
        rw [beginWith, List.getD_append_right _ _ _ _ (Nat.le_refl _), Nat.sub_self]
        rfl
      rw [List.length_append, List.length_singleton, execution, same _ (Nat.le_refl _), ih, turn,
        List.foldl_append, List.foldl_cons, List.foldl_nil]

variable {holds final : σ → Prop} {helpful : σ → ι → Prop} (measure : σ → Nat)

/-- What an agent does until its turn: it stays helpful, or the measure has decreased before. -/
theorem helpful_until {time later : Nat} {agent : ι} (fair : Fair agents schedule)
    (always : ∀ time, holds (execution step schedule first time))
    (kept : ∀ state agent other, holds state → helpful state agent → agents other →
      measure (step state other) < measure state ∨
        measure (step state other) = measure state ∧ helpful (step state other) agent)
    (help : helpful (execution step schedule first time) agent) (after : time ≤ later) :
    (∃ between, time ≤ between ∧ measure (execution step schedule first between) <
      measure (execution step schedule first time)) ∨
    measure (execution step schedule first later) =
      measure (execution step schedule first time) ∧
        helpful (execution step schedule first later) agent := by
  induction later, after using Nat.le_induction with
  | base => exact Or.inr ⟨rfl, help⟩
  | succ later after ih =>
      rcases ih with before | ⟨same, helps⟩
      · exact Or.inl before
      · rcases kept _ _ _ (always later) helps (fair.turns later) with smaller | ⟨equal, helps⟩
        · left
          refine ⟨later + 1, Nat.le_succ_of_le after, ?_⟩
          rw [← same]
          exact smaller
        · exact Or.inr ⟨equal.trans same, helps⟩

theorem Fair.ends (fair : Fair agents schedule) (start : holds first)
    (preserved : ∀ state agent, holds state → agents agent → holds (step state agent))
    (progress : ∀ state, holds state → final state ∨ ∃ agent, agents agent ∧ helpful state agent)
    (nearer : ∀ state agent, holds state → helpful state agent →
      measure (step state agent) < measure state)
    (kept : ∀ state agent other, holds state → helpful state agent → agents other →
      measure (step state other) < measure state ∨
        measure (step state other) = measure state ∧ helpful (step state other) agent)
    (time : Nat) : ∃ later, time ≤ later ∧ final (execution step schedule first later) := by
  have always := execution_invariant fair start preserved
  generalize value : measure (execution step schedule first time) = bound
  induction bound using Nat.strongRecOn generalizing time with
  | ind bound ih =>
      rcases progress _ (always time) with done | ⟨agent, member, help⟩
      · exact ⟨time, Nat.le_refl time, done⟩
      · obtain ⟨turn, after, mine⟩ := fair.again agent member time
        have nearerLater : ∃ between, time ≤ between ∧
            measure (execution step schedule first between) <
              measure (execution step schedule first time) := by
          rcases helpful_until measure fair always kept help after with before | ⟨same, helps⟩
          · exact before
          · refine ⟨turn + 1, Nat.le_succ_of_le after, ?_⟩
            rw [← same, execution, mine]
            exact nearer _ _ (always turn) helps
        obtain ⟨between, later, smaller⟩ := nearerLater
        obtain ⟨last, final, done⟩ := ih _ (value ▸ smaller) between rfl
        exact ⟨last, Nat.le_trans later final, done⟩

theorem Fair.ends_of_idle (fair : Fair agents schedule) (start : holds first)
    (preserved : ∀ state agent, holds state → agents agent → holds (step state agent))
    (idle : ∀ state agent, holds state → agents agent →
      step state agent = state ∨ measure (step state agent) < measure state)
    (progress : ∀ state, holds state →
      final state ∨ ∃ agent, agents agent ∧ measure (step state agent) < measure state)
    (stays : ∀ state, holds state → final state →
      ∀ agent, agents agent → step state agent = state) :
    ∃ time, final (execution step schedule first time) ∧ ∀ later, time ≤ later →
      execution step schedule first later = execution step schedule first time := by
  have always := execution_invariant fair start preserved
  have kept : ∀ state agent other, holds state →
      measure (step state agent) < measure state → agents other →
        measure (step state other) < measure state ∨
          measure (step state other) = measure state ∧
            measure (step (step state other) agent) < measure (step state other) := by
    intro state agent other held help member
    rcases idle state other held member with same | smaller
    · rw [same]
      exact Or.inr ⟨rfl, help⟩
    · exact Or.inl smaller
  obtain ⟨time, _, done⟩ :=
    fair.ends measure start preserved progress (fun _ _ _ help => help) kept 0
  refine ⟨time, done, ?_⟩
  intro later after
  exact execution_stays (stays _ (always time) done) fair after

end Execution

theorem fair_roundRobin {agents : Nat} (positive : 0 < agents) :
    Fair (· < agents) (· % agents) := by
  constructor
  · intro time
    exact Nat.mod_lt time positive
  · intro agent bound time
    refine ⟨time * agents + agent, ?_, ?_⟩
    · exact Nat.le_add_right_of_le (Nat.le_mul_of_pos_right time positive)
    · exact Nat.mul_add_mod_of_lt bound

theorem Fair.map {κ : Type*} {agents : ι → Prop} {schedule : Nat → ι} {others : κ → Prop}
    (fair : Fair agents schedule) (value : ι → κ)
    (within : ∀ agent, agents agent → others (value agent))
    (onto : ∀ other, others other → ∃ agent, agents agent ∧ value agent = other) :
    Fair others (value ∘ schedule) := by
  constructor
  · intro time
    exact within _ (fair.turns time)
  · intro other member time
    obtain ⟨agent, inside, rfl⟩ := onto other member
    obtain ⟨later, after, mine⟩ := fair.again agent inside time
    exact ⟨later, after, congrArg value mine⟩

end Transition
