import RockAMali.Roster

/-!
The roster invariant holds in every state of every run: no step of any thread,
in whatever order, takes a slot from the thread that holds it.
-/

namespace RockAMali

open Relay

namespace Roster

variable {α β : Type*} {frame : Nat → α} {kernel : α → β} {program : Program}
  {state successor : State α β} {id : Nat} {ring : Ring} {slot : Nat} {hold : Hold}
  {roster : Roster program}

theorem Invariant.initial (first : program.Initial state) : roster.Invariant state := by
  have start (id : Nat) : (program.thread id).iterations (state.locals id) = 0 := by
    simp [Thread.iterations, first.index, Run.first]
  constructor
  · exact first.exited
  · intro id bound
    rw [start, first.index, Run.index_zero]
  · intro id bound started
    exact (started (first.phase id)).elim
  · intro ring nonempty slot slotBound
    have positive := List.length_pos_iff.mpr nonempty
    refine ⟨⟨0, ⟨0, positive⟩⟩, ?_, Or.inl ⟨?_, ?_⟩⟩
    · intro stage bound
      simp [served, Thread.releases, start, first.hold, Baton.served]
    · have head := List.getElem?_eq_getElem positive
      rw [first.free]
      simpa only [roster.free ring _ head] using head
    · intro other bound otherHold held
      exact held.phase (first.phase other)

theorem Invariant.index_update (invariant : roster.Invariant state) {own : Local β}
    (index : own.index = (program.thread id).run.index program.nbuffer
      ((program.thread id).iterations own)) :
    ∀ other < program.threads, (Function.update state.locals id own other).index =
      (program.thread other).run.index program.nbuffer
        ((program.thread other).iterations (Function.update state.locals id own other)) := by
  intro other bound
  by_cases same : other = id
  · subst same
    simpa using index
  · simpa [same] using invariant.index other bound

theorem Invariant.busy_update (invariant : roster.Invariant state)
    (others : ∀ other, other ≠ id → successor.locals other = state.locals other)
    (own : (successor.locals id).phase ≠ .wait → program.Running successor id) :
    ∀ other < program.threads, (successor.locals other).phase ≠ .wait →
      program.Running successor other := by
  intro other bound started
  by_cases same : other = id
  · subst same
    exact own started
  · rw [others other same] at started
    exact (Program.running_congr (by rw [others other same]) (by rw [others other same])).mpr
      (invariant.busy other bound started)

theorem Invariant.acquire (invariant : roster.Invariant state) (bound : id < program.threads)
    (current : program.current state id = some hold) (waiting : (state.locals id).phase = .wait)
    (free : state.access (state.place id hold) = hold.waitStatus) :
    roster.Invariant { state with
      access := Function.update state.access (state.place id hold) hold.state
      locals := Function.update state.locals id { state.locals id with phase := .access } } := by
  generalize taken : ({ state with
      access := Function.update state.access (state.place id hold) hold.state
      locals := Function.update state.locals id { state.locals id with phase := .access } } :
      State α β) = successor
  have others (other : Nat) (different : other ≠ id) :
      successor.locals other = state.locals other := by
    simp [← taken, different]
  have mine : successor.locals id = { state.locals id with phase := .access } := by
    simp [← taken]
  have currentSame : program.current successor id = some hold := by
    rw [← current]
    exact Program.current_congr (by rw [mine]) (by rw [mine])
  have placeSame : successor.place id hold = state.place id hold := by
    simp only [State.place, mine]
  have releases (other part : Nat) : (program.thread other).releases (successor.locals other) part =
      (program.thread other).releases (state.locals other) part := by
    by_cases same : other = id
    · subst same
      rw [mine]
      exact Thread.releases_phase .access _
    · rw [others other same]
  constructor
  · rw [← taken]
    exact invariant.exited
  · rw [← taken]
    exact invariant.index_update (invariant.index id bound)
  · exact invariant.busy_update others fun _ => by simp [Program.Running, currentSame]
  · intro ring nonempty slot slotBound
    obtain ⟨baton, placed⟩ := invariant.placed ring nonempty slot slotBound
    refine ⟨baton, ?_⟩
    have notMine (other : Hold) : ¬program.Holds state id other (ring, slot) :=
      fun held => held.phase waiting
    by_cases target : state.place id hold = (ring, slot)
    · -- the baton is at the station of the thread that takes the slot
      have ringEq : hold.ring = ring := congrArg Prod.fst target
      have slotEq : (state.locals id).index.n = slot := congrArg Prod.snd target
      subst ringEq
      obtain ⟨stage, wait, _, busy, visitor⟩ := invariant.station bound current
      rcases placed with ⟨counts, vacant | ⟨owner, ownerBound, other, occupied⟩⟩
      · have stageEq : (baton.stage : Nat) = stage := by
          refine roster.same_stage vacant.status ?_
          rw [← target, free]
          exact wait
        refine ⟨fun station stationBound => ?_, Or.inr ⟨id, bound, hold, ?_⟩⟩
        · rw [served_congr (releases _)]
          exact counts station stationBound
        · constructor
          · exact ⟨currentSame, by simp [mine], by rw [placeSame, target]⟩
          · rw [stageEq, mine, ← slotEq]
            exact visitor
          · rw [stageEq]
            exact wait
          · simp [← taken, target]
          · intro other otherBound otherHold held
            by_contra different
            exact vacant.nobody other otherBound otherHold
              ((Program.holds_congr (others other different)).mp held)
      · -- a slot that somebody holds has a busy status, which nobody waits for
        exfalso
        obtain ⟨_, _, _, otherBusy, _⟩ := invariant.station ownerBound occupied.holds.current
        have ringSame : other.ring = hold.ring := congrArg Prod.fst occupied.holds.place
        rw [ringSame, ← occupied.status, ← target, free] at otherBusy
        exact otherBusy (List.mem_of_getElem? wait)
    · apply placed.elsewhere others
      · simp [← taken, Ne.symm target]
      · exact fun station _ => served_congr (releases _)
      · exact notMine
      · exact fun other held => target (placeSame.symm.trans (held.place_current currentSame))

theorem Invariant.perform (invariant : roster.Invariant state) (bound : id < program.threads)
    (accessing : (state.locals id).phase = .access) :
    roster.Invariant (state.perform frame kernel id hold) := by
  have others (other : Nat) (different : other ≠ id) :
      (state.perform frame kernel id hold).locals other = state.locals other := by
    simp [State.perform, different]
  have mine : ∃ image, (state.perform frame kernel id hold).locals id =
      { state.locals id with phase := .set, image := image } := by
    simp [State.perform]
  obtain ⟨image, mine⟩ := mine
  constructor
  · exact invariant.exited
  · exact invariant.index_update (invariant.index id bound)
  · refine invariant.busy_update others fun _ => ?_
    exact (Program.running_congr (by rw [mine]) (by rw [mine])).mpr
      (invariant.busy id bound (by simp [accessing]))
  · intro ring nonempty slot slotBound
    obtain ⟨baton, placed⟩ := invariant.placed ring nonempty slot slotBound
    refine ⟨baton, placed.unchanged rfl ?_ ?_ ?_⟩
    · intro station stationBound
      apply served_congr
      intro part
      by_cases same : (roster.visitor ring station slot).1 = id
      · rw [same, mine]
        exact Thread.releases_phase .set image
      · rw [others _ same]
    · intro other otherBound otherHold
      by_cases same : other = id
      · subst same
        have currentSame : program.current (state.perform frame kernel other hold) other =
            program.current state other := Program.current_congr (by rw [mine]) (by rw [mine])
        constructor
        · rintro ⟨found, _, spot⟩
          exact ⟨by rwa [← currentSame], by simp [accessing],
            by simpa only [State.place, mine] using spot⟩
        · rintro ⟨found, _, spot⟩
          exact ⟨by rwa [currentSame], by simp [mine],
            by simpa only [State.place, mine] using spot⟩
      · exact Program.holds_congr (others other same)
    · intro other otherBound otherHold held
      by_cases same : other = id
      · subst same
        rw [mine]
      · rw [others other same]

theorem Invariant.served_advance (invariant : roster.Invariant state)
    (bound : id < program.threads) (current : program.current state id = some hold)
    (others : ∀ other, other ≠ id → successor.locals other = state.locals other)
    (mine : successor.locals id = (state.locals id).advance program.nbuffer (program.thread id))
    (slotBound : slot < program.nbuffer) {stage : Nat}
    (stageBound : stage < (roster.cycle ring).length) :
    roster.served successor ring slot stage = roster.served state ring slot stage +
      if roster.visitor ring stage slot = (id, (state.locals id).hold) ∧
        (state.locals id).index.n = slot then 1 else 0 := by
  have heldBound : (state.locals id).hold < (program.thread id).iteration.length :=
    (List.getElem?_eq_some_iff.mp (Program.current_some current).2).1
  have released : (program.thread id).releases (state.locals id) (state.locals id).hold =
      (program.thread id).iterations (state.locals id) := by
    simp [Thread.releases]
  obtain ⟨_, visiting, found, _, _⟩ := roster.serves ring stage slot _ slotBound
    (List.getElem?_eq_getElem stageBound)
  have partBound := (List.getElem?_eq_some_iff.mp found).1
  simp only [served]
  generalize visitor : roster.visitor ring stage slot = pair at found partBound
  obtain ⟨other, part⟩ := pair
  simp only [Prod.mk.injEq] at found partBound ⊢
  by_cases same : other = id
  · subst same
    rw [mine, Thread.releases_advance (roster.stride other bound) (invariant.index other bound)
      partBound heldBound]
    by_cases samePart : part = (state.locals other).hold
    · subst samePart
      rw [released]
      simp only [if_true, visits_succ, ← invariant.current_slot bound, true_and]
    · simp [samePart]
  · simp [others other same, same]

theorem Invariant.release (invariant : roster.Invariant state) (bound : id < program.threads)
    (current : program.current state id = some hold) (setting : (state.locals id).phase = .set) :
    roster.Invariant { state with
      access := Function.update state.access (state.place id hold) hold.setStatus
      locals := Function.update state.locals id
        ((state.locals id).advance program.nbuffer (program.thread id)) } := by
  have index := Thread.iterations_advance (roster.stride id bound) (invariant.index id bound)
  generalize taken : ({ state with
      access := Function.update state.access (state.place id hold) hold.setStatus
      locals := Function.update state.locals id
        ((state.locals id).advance program.nbuffer (program.thread id)) } :
      State α β) = successor
  have others (other : Nat) (different : other ≠ id) :
      successor.locals other = state.locals other := by
    simp [← taken, different]
  have mine : successor.locals id =
      (state.locals id).advance program.nbuffer (program.thread id) := by
    simp [← taken]
  have phase : (successor.locals id).phase = .wait := by
    rw [mine, Local.advance]
    split <;> rfl
  have notMine (other : Hold) (place : Ring × Nat) :
      ¬program.Holds successor id other place := fun held => held.phase phase
  have holds : program.Holds state id hold (state.place id hold) :=
    ⟨current, by simp [setting], rfl⟩
  constructor
  · rw [← taken]
    exact invariant.exited
  · rw [← taken]
    exact invariant.index_update index.1
  · exact invariant.busy_update others fun started => (started phase).elim
  · intro ring nonempty slot slotBound
    have counted (stage : Nat) (stageBound : stage < (roster.cycle ring).length) :=
      invariant.served_advance bound current others mine slotBound stageBound
    by_cases target : state.place id hold = (ring, slot)
    · -- the thread hands the baton on to the next station
      have ringEq : hold.ring = ring := congrArg Prod.fst target
      have slotEq : (state.locals id).index.n = slot := congrArg Prod.snd target
      subst ringEq
      rw [target] at holds
      obtain ⟨baton, counts, occupied⟩ := invariant.occupied bound holds
      obtain ⟨stage, wait, set, _, visitor⟩ := invariant.station bound current
      have stageEq : (baton.stage : Nat) = stage := roster.same_stage occupied.wait wait
      refine ⟨baton.next, fun station stationBound => ?_, Or.inl ⟨?_, ?_⟩⟩
      · have leaves : (roster.visitor hold.ring station slot = (id, (state.locals id).hold) ∧
            (state.locals id).index.n = slot) ↔ station = baton.stage := by
          constructor
          · rintro ⟨visiting, _⟩
            exact roster.same_stage
              (visitor_current slotBound stationBound visiting current).2 occupied.wait
          · intro same
            subst same
            exact ⟨occupied.visitor, slotEq⟩
        rw [counted station stationBound, counts station stationBound,
          Baton.served_next baton stationBound]
        simp only [leaves]
      · rw [Baton.next_stage, stageEq, set]
        simp [← taken, target]
      · intro other otherBound otherHold held
        by_cases same : other = id
        · subst same
          exact notMine otherHold _ held
        · exact same (occupied.alone other otherBound otherHold
            ((Program.holds_congr (others other same)).mp held))
    · obtain ⟨baton, placed⟩ := invariant.placed ring nonempty slot slotBound
      refine ⟨baton, placed.elsewhere others ?_ ?_ ?_ fun other => notMine other _⟩
      · simp [← taken, Ne.symm target]
      · intro stage stageBound
        rw [counted stage stageBound, if_neg, Nat.add_zero]
        rintro ⟨visiting, slotEq⟩
        have ringEq := (visitor_current slotBound stageBound visiting current).1
        exact target (by rw [State.place, ringEq, slotEq])
      · exact fun other held => target (held.place_current current)

theorem Invariant.step (invariant : roster.Invariant state) (bound : id < program.threads) :
    roster.Invariant (program.step frame kernel state id) := by
  rcases program.step_cases frame kernel id invariant.exited with idle | ⟨hold, current, step⟩
  · rw [idle]
    exact invariant
  · rcases step with ⟨waiting, free, taken⟩ | ⟨accessing, taken⟩ | ⟨setting, _, taken⟩ |
      ⟨setting, lost, _⟩
    · rw [taken]
      exact invariant.acquire bound current waiting free
    · rw [taken]
      exact invariant.perform bound accessing
    · rw [taken]
      exact invariant.release bound current setting
    · obtain ⟨_, _, occupied⟩ := invariant.occupied bound
        (⟨current, by simp [setting], rfl⟩ : program.Holds state id hold (state.place id hold))
      exact (lost occupied.status).elim

theorem invariant_of_reachable (roster : Roster program)
    (reachable : program.Reachable frame kernel state) : roster.Invariant state := by
  apply Transition.Reachable.invariant _ _ reachable
  · exact fun first initial => Invariant.initial initial
  · rintro before after invariant ⟨id, bound, rfl⟩
    exact invariant.step bound

end Roster

end RockAMali
