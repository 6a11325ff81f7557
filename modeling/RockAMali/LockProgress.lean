import RockAMali.LockedSections

/-!
The locks of the rings do not keep the threads from their end: the program of
lock calls can always reach it exactly when the one of whole sections does not
get stuck.
-/

namespace RockAMali

section Progress

variable {α β : Type*} {frame : Nat → α} {kernel : α → β} {program : Program}
  {lock : LockState α β} {id : Nat} {hold : Hold} {roster : Roster program}

/-- A look in vain is one more round of `wait_for_status`. -/
def Phase.round (phase : Phase) (hold : Hold) (status : Taccess) : Nat :=
  if phase = .wait ∧ status ≠ hold.waitStatus then 5 else 0

def LockState.distance (lock : LockState α β) (id : Nat) (hold : Hold) : Nat :=
  let round := (lock.state.locals id).phase.round hold
  match lock.point id with
  | .unlocked => 5
  | .locked => 4 + round (lock.state.access (lock.state.place id hold))
  | .compared => 3 + round (lock.a id)
  | .written => 2 + round (lock.a id)
  | .looked => 1 + round (lock.a id)

def Program.lockRemaining (program : Program) (lock : LockState α β) (id : Nat) : Nat :=
  5 * (lock.state.locals id).remaining program.count (program.thread id).iteration.length +
    match program.current lock.state id with
    | none => 5
    | some hold => lock.distance id hold

theorem Program.lockRemaining_some (current : program.current lock.state id = some hold) :
    program.lockRemaining lock id = 5 * (lock.state.locals id).remaining program.count
      (program.thread id).iteration.length + lock.distance id hold := by
  simp only [Program.lockRemaining, current]

theorem Program.lockRemaining_unlocked (point : lock.point id = .unlocked) :
    program.lockRemaining lock id = 5 * (lock.state.locals id).remaining program.count
      (program.thread id).iteration.length + 5 := by
  simp only [Program.lockRemaining, LockState.distance, point]
  cases program.current lock.state id <;> rfl

theorem Program.lockRemaining_kept {next : LockState α β}
    (current : program.current lock.state id = some hold)
    (locals : next.state.locals = lock.state.locals) :
    program.lockRemaining next id = 5 * (lock.state.locals id).remaining program.count
      (program.thread id).iteration.length + next.distance id hold := by
  have same : program.current next.state id = some hold := by
    rw [← current]
    exact Program.current_congr (by rw [locals]) (by rw [locals])
  rw [Program.lockRemaining_some same, locals]

theorem Program.wait_nearer (current : program.current lock.state id = some hold)
    (waiting : (lock.state.locals id).phase = .wait)
    (goes : lock.point id ≠ .unlocked ∨ lock.owner hold.ring = none ∧
      lock.state.access (lock.state.place id hold) = hold.waitStatus) :
    program.lockRemaining (lock.waitForStatus id hold) id < program.lockRemaining lock id := by
  obtain ⟨within, found⟩ := Program.current_some current
  have held := (List.getElem?_eq_some_iff.mp found).1
  rw [Program.lockRemaining_some current]
  cases point : lock.point id with
  | unlocked =>
      obtain ⟨free, status⟩ := goes.resolve_left (not_not_intro point)
      simp only [LockState.waitForStatus, point, LockState.setLock, if_pos free]
      rw [Program.lockRemaining_kept current]
      · have soon : (lock.state.locals id).phase.round hold
            (lock.state.access (lock.state.place id hold)) = 0 := by
          simp [Phase.round, status]
        rw [State.place] at soon
        simp [LockState.distance, State.place, point, soon]
      · rfl
  | locked =>
      simp only [LockState.waitForStatus, point]
      rw [Program.lockRemaining_kept current]
      · simp [LockState.distance, point, State.place]
      · rfl
  | compared =>
      simp only [LockState.waitForStatus, point]
      split
      · rw [Program.lockRemaining_kept current]
        · simp [LockState.distance, LockState.write, point]
        · rfl
      · rw [Program.lockRemaining_kept current]
        · simp [LockState.distance, point]
        · rfl
  | written =>
      simp only [LockState.waitForStatus, point]
      rw [Program.lockRemaining_kept current]
      · simp [LockState.distance, LockState.unsetLock, point]
      · rfl
  | looked =>
      simp only [LockState.waitForStatus, point]
      split
      · have nearer := Local.remaining_access within held waiting
        rw [Program.lockRemaining_unlocked (by simp [LockState.withLocal])]
        simp only [LockState.withLocal, Function.update_self, LockState.distance, point]
        omega
      · rename_i vain
        rw [Program.lockRemaining_unlocked (by simp)]
        simp [LockState.distance, Phase.round, point, waiting, vain]

theorem Program.set_nearer (stride : 0 < (program.thread id).run.stride)
    (current : program.current lock.state id = some hold)
    (setting : (lock.state.locals id).phase = .set)
    (own : lock.point id = .locked →
      lock.state.access (lock.state.place id hold) = hold.state)
    (goes : lock.point id ≠ .unlocked ∨ lock.owner hold.ring = none) :
    program.lockRemaining (program.lockSetStatus lock id hold) id <
      program.lockRemaining lock id := by
  obtain ⟨within, found⟩ := Program.current_some current
  have held := (List.getElem?_eq_some_iff.mp found).1
  have done : program.lockRemaining ((lock.unsetLock id hold .unlocked).withLocal id
      ((lock.state.locals id).advance program.nbuffer (program.thread id))) id ≤
        5 * (lock.state.locals id).remaining program.count
          (program.thread id).iteration.length := by
    have nearer : ((lock.state.locals id).advance program.nbuffer (program.thread id)).remaining
          program.count (program.thread id).iteration.length <
        (lock.state.locals id).remaining program.count (program.thread id).iteration.length :=
      Local.remaining_advance stride within held setting
    rw [Program.lockRemaining_unlocked (by simp [LockState.withLocal, LockState.unsetLock])]
    simp only [LockState.withLocal, Function.update_self]
    omega
  rw [Program.lockRemaining_some current]
  cases point : lock.point id with
  | unlocked =>
      have free := goes.resolve_left (not_not_intro point)
      simp only [Program.lockSetStatus, point, LockState.setLock, if_pos free]
      rw [Program.lockRemaining_kept current]
      · simp [LockState.distance, Phase.round, point, setting]
      · rfl
  | locked =>
      simp only [Program.lockSetStatus, point, own point, ne_eq, not_true_eq_false, if_false]
      rw [Program.lockRemaining_kept current]
      · simp [LockState.distance, Phase.round, point, setting]
      · rfl
  | compared =>
      simp only [Program.lockSetStatus, point]
      rw [Program.lockRemaining_kept current]
      · simp [LockState.distance, LockState.write, Phase.round, point, setting]
      · rfl
  | written =>
      simp only [Program.lockSetStatus, point]
      apply Nat.lt_of_le_of_lt done
      simp only [LockState.distance, point]
      omega
  | looked =>
      simp only [Program.lockSetStatus, point]
      apply Nat.lt_of_le_of_lt done
      simp only [LockState.distance, point]
      omega

theorem Program.access_nearer (current : program.current lock.state id = some hold)
    (accessing : (lock.state.locals id).phase = .access) (point : lock.point id = .unlocked) :
    program.lockRemaining { lock with state := lock.state.perform frame kernel id hold } id <
      program.lockRemaining lock id := by
  obtain ⟨within, found⟩ := Program.current_some current
  have held := (List.getElem?_eq_some_iff.mp found).1
  have still : ({ lock with state := lock.state.perform frame kernel id hold } :
      LockState α β).point id = .unlocked := point
  rw [Program.lockRemaining_unlocked point, Program.lockRemaining_unlocked still]
  simp only [State.perform, Function.update_self]
  have nearer := Local.remaining_set within held accessing
    (hold.perform frame kernel (lock.state.locals id).index lock.state.data
      (lock.state.locals id).image).2
  omega

def Program.Goes (program : Program) (lock : LockState α β) (id : Nat) : Prop :=
  ∃ hold, program.current lock.state id = some hold ∧
    (lock.point id ≠ .unlocked ∨
      lock.owner hold.ring = none ∧ ¬program.Waits lock.state id)

theorem Program.LockInvariant.nearer (invariant : program.LockInvariant lock)
    (placed : roster.Invariant (program.sections lock)) (bound : id < program.threads)
    (goes : program.Goes lock id) :
    program.lockRemaining (program.lockStep frame kernel lock id) id <
      program.lockRemaining lock id := by
  obtain ⟨hold, current, free⟩ := goes
  have exited : lock.state.exited = false := placed.exited
  simp only [Program.lockStep, exited, Bool.false_eq_true, if_false, current]
  cases phase : (lock.state.locals id).phase with
  | wait =>
      apply Program.wait_nearer current phase
      apply free.imp_right
      rintro ⟨unowned, awaited⟩
      refine ⟨unowned, ?_⟩
      by_contra vain
      exact awaited ⟨hold, current, phase, vain⟩
  | access => exact Program.access_nearer current phase ((invariant.knows id).accesses phase)
  | set =>
      apply Program.set_nearer (roster.stride id bound) current phase
      · intro point
        have own : program.sectionLocal lock id = lock.state.locals id := by
          simp only [Program.sectionLocal, current, phase, point]
        obtain ⟨mine, same, place⟩ := Program.sections_current current own
        obtain ⟨_, _, occupied⟩ := placed.occupied bound
          (⟨same, by simp [mine, phase], rfl⟩ : program.Holds (program.sections lock) id hold
            ((program.sections lock).place id hold))
        rw [← place]
        exact occupied.status
      · exact free.imp_right And.left

theorem Program.Moves.lockRemaining {next : LockState α β} (moves : program.Moves lock next id)
    (invariant : program.LockInvariant lock) {other : Nat} (different : other ≠ id) :
    program.lockRemaining next other = program.lockRemaining lock other := by
  have locals := moves.locals other different
  have current : program.current next.state other = program.current lock.state other :=
    Program.current_congr (by rw [locals]) (by rw [locals])
  simp only [Program.lockRemaining, locals, current]
  cases found : program.current lock.state other with
  | none => rfl
  | some hold =>
      simp only [LockState.distance, State.place, locals, moves.point other different,
        moves.a other different]
      cases point : lock.point other with
      | locked =>
          -- only the thread that has set the lock writes the statuses of the ring
          rcases moves.access (hold.ring, (lock.state.locals other).index.n) with same | inside
          · rw [same]
          · have mine := (invariant.owner _ _).mpr inside
            have theirs := (invariant.owner hold.ring other).mpr
              ⟨hold, found, rfl, Or.inl point⟩
            exact (different (Option.some.inj (theirs.symm.trans mine))).elim
      | unlocked | compared | written | looked => rfl

def Program.lockTotal (program : Program) (lock : LockState α β) : Nat :=
  ∑ id ∈ Finset.range program.threads, program.lockRemaining lock id

theorem Program.LockInvariant.total_nearer (invariant : program.LockInvariant lock)
    (placed : roster.Invariant (program.sections lock)) (bound : id < program.threads)
    (goes : program.Goes lock id) :
    program.lockTotal (program.lockStep frame kernel lock id) < program.lockTotal lock := by
  have nearer : program.lockRemaining (program.lockStep frame kernel lock id) id <
      program.lockRemaining lock id := invariant.nearer placed bound goes
  have refined : program.Refines frame kernel lock (program.lockStep frame kernel lock id) id :=
    invariant.step
  apply Finset.sum_lt_sum
  · intro other _
    by_cases same : other = id
    · rw [same]
      exact Nat.le_of_lt nearer
    · exact Nat.le_of_eq (refined.moves.lockRemaining invariant same)
  · exact ⟨id, Finset.mem_range.mpr bound, nearer⟩

theorem Program.point_outside (reachable : program.LockReachable frame kernel lock)
    (outside : program.threads ≤ id) : lock.point id = .unlocked := by
  induction reachable with
  | start first => exact first.point id
  | step before next ih =>
      obtain ⟨other, bound, rfl⟩ := next
      have refined : program.Refines frame kernel _ _ other :=
        (Program.sections_reachable before).1.step
      rw [refined.moves.point id (by omega)]
      exact ih

theorem Program.sections_unlocked (unlocked : ∀ id, lock.point id = .unlocked) :
    program.sections lock = lock.state := by
  have locals : program.sectionLocal lock = lock.state.locals := by
    funext id
    exact Program.sectionLocal_unlocked (unlocked id)
  simp only [Program.sections, locals]

theorem Program.exists_goes (reachable : program.LockReachable frame kernel lock)
    (alive : ∀ state, program.Reachable frame kernel state → ¬program.Stuck state)
    (unfinished : ¬program.Finished lock.state) :
    ∃ id < program.threads, program.Goes lock id := by
  obtain ⟨invariant, refined⟩ := Program.sections_reachable reachable
  by_cases unlocked : ∀ id, lock.point id = .unlocked
  · rw [Program.sections_unlocked unlocked] at refined
    obtain ⟨id, bound, running, free⟩ := Program.exists_free (alive _ refined) unfinished
    obtain ⟨hold, current⟩ := Option.isSome_iff_exists.mp running
    refine ⟨id, bound, hold, current, Or.inr ⟨?_, free⟩⟩
    cases owner : lock.owner hold.ring with
    | none => rfl
    | some other =>
        exact (Program.not_inside (Or.inl (unlocked other))
          ((invariant.owner _ _).mp owner)).elim
  · push Not at unlocked
    obtain ⟨id, past⟩ := unlocked
    have bound : id < program.threads := by
      by_contra outside
      exact past (Program.point_outside reachable (Nat.le_of_not_lt outside))
    cases current : program.current lock.state id with
    | none => exact (past ((invariant.knows id).finished current)).elim
    | some hold => exact ⟨id, bound, hold, current, Or.inl past⟩

theorem Program.LockReachable.continues {next : LockState α β}
    (reachable : program.LockReachable frame kernel lock)
    (continued : Transition.Reachable (· = lock) (program.LockNext frame kernel) next) :
    program.LockReachable frame kernel next := by
  refine Transition.Reachable.invariant ?_ ?_ continued
  · rintro _ rfl
    exact reachable
  · exact fun _ _ before next => .step before next

def Program.LockFinishes (program : Program) (frame : Nat → α) (kernel : α → β) : Prop :=
  ∀ lock : LockState α β, program.LockReachable frame kernel lock →
    ∃ last, Transition.Reachable (· = lock) (program.LockNext frame kernel) last ∧
      program.Finished last.state

theorem Program.lock_finishes (roster : Roster program)
    (alive : ∀ state, program.Reachable frame kernel state → ¬program.Stuck state) :
    program.LockFinishes frame kernel := by
  intro lock reachable
  refine Transition.Reachable.exists_final program.lockTotal ?_ (.start rfl)
  intro next continued
  by_cases finished : program.Finished next.state
  · exact Or.inl finished
  · right
    have reached := reachable.continues continued
    obtain ⟨id, bound, goes⟩ := Program.exists_goes reached alive finished
    obtain ⟨invariant, refined⟩ := Program.sections_reachable reached
    have placed := roster.invariant_of_reachable refined
    exact ⟨_, ⟨id, bound, rfl⟩, invariant.total_nearer placed bound goes⟩

def LockState.outside (state : State α β) (a : Nat → Taccess) : LockState α β :=
  ⟨state, fun _ => none, fun _ => .unlocked, a⟩

def LockState.inside (state : State α β) (a : Nat → Taccess) (id : Nat) (ring : Ring)
    (point : Point) : LockState α β :=
  ⟨state, Function.update (fun _ => none) ring (some id),
    Function.update (fun _ => .unlocked) id point, a⟩

section Alone

variable {state : State α β} {a : Nat → Taccess}

theorem Program.LockReachable.takes {next : LockState α β}
    (reachable : program.LockReachable frame kernel lock)
    (bound : id < program.threads) (taken : program.lockStep frame kernel lock id = next) :
    program.LockReachable frame kernel next := by
  rw [← taken]
  exact .step reachable ⟨id, bound, rfl⟩

theorem Program.lockStep_wait (exited : lock.state.exited = false)
    (current : program.current lock.state id = some hold)
    (waiting : (lock.state.locals id).phase = .wait) :
    program.lockStep frame kernel lock id = lock.waitForStatus id hold := by
  simp only [Program.lockStep, exited, Bool.false_eq_true, if_false, current, waiting]

theorem Program.lockStep_set (exited : lock.state.exited = false)
    (current : program.current lock.state id = some hold)
    (setting : (lock.state.locals id).phase = .set) :
    program.lockStep frame kernel lock id = program.lockSetStatus lock id hold := by
  simp only [Program.lockStep, exited, Bool.false_eq_true, if_false, current, setting]

theorem Program.LockReachable.enters (bound : id < program.threads)
    (reachable : program.LockReachable frame kernel (LockState.outside state a))
    (exited : state.exited = false) (current : program.current state id = some hold)
    (outside : (state.locals id).phase ≠ .access) :
    program.LockReachable frame kernel (LockState.inside state a id hold.ring .locked) := by
  apply reachable.takes bound
  cases phase : (state.locals id).phase with
  | wait =>
      rw [Program.lockStep_wait exited current phase]
      simp [LockState.waitForStatus, LockState.setLock, LockState.outside, LockState.inside]
  | access => exact (outside phase).elim
  | set =>
      rw [Program.lockStep_set exited current phase]
      simp [Program.lockSetStatus, LockState.setLock, LockState.outside, LockState.inside]

theorem Program.LockReachable.waits (bound : id < program.threads)
    (reachable : program.LockReachable frame kernel (LockState.outside state a))
    (exited : state.exited = false) (current : program.current state id = some hold)
    (waiting : (state.locals id).phase = .wait)
    (status : state.access (state.place id hold) = hold.waitStatus) :
    program.LockReachable frame kernel (LockState.outside
      { state with
        access := Function.update state.access (state.place id hold) hold.state
        locals := Function.update state.locals id { state.locals id with phase := .access } }
      (Function.update a id hold.waitStatus)) := by
  have locked := reachable.enters bound exited current (by simp [waiting])
  let known := Function.update a id hold.waitStatus
  let acquired : State α β :=
    { state with access := Function.update state.access (state.place id hold) hold.state }
  have compared : program.LockReachable frame kernel
      (LockState.inside state known id hold.ring .compared) := by
    apply locked.takes bound
    rw [Program.lockStep_wait exited current waiting]
    simp [LockState.waitForStatus, LockState.inside, status, known]
  have written : program.LockReachable frame kernel
      (LockState.inside acquired known id hold.ring .written) := by
    apply compared.takes bound
    rw [Program.lockStep_wait exited current waiting]
    simp [LockState.waitForStatus, LockState.write, LockState.inside, known, acquired]
  have looked : program.LockReachable frame kernel
      ⟨acquired, fun _ => none, Function.update (fun _ => .unlocked) id .looked, known⟩ := by
    apply written.takes bound
    rw [Program.lockStep_wait exited current waiting]
    simp [LockState.waitForStatus, LockState.unsetLock, LockState.inside]
  apply looked.takes bound
  rw [Program.lockStep_wait exited current waiting]
  simp [LockState.waitForStatus, LockState.withLocal, LockState.outside, known, acquired]

theorem Program.LockReachable.sets (bound : id < program.threads)
    (reachable : program.LockReachable frame kernel (LockState.outside state a))
    (exited : state.exited = false) (current : program.current state id = some hold)
    (setting : (state.locals id).phase = .set)
    (status : state.access (state.place id hold) = hold.state) :
    program.LockReachable frame kernel (LockState.outside
      { state with
        access := Function.update state.access (state.place id hold) hold.setStatus
        locals := Function.update state.locals id
          ((state.locals id).advance program.nbuffer (program.thread id)) } a) := by
  have locked := reachable.enters bound exited current (by simp [setting])
  let released : State α β :=
    { state with access := Function.update state.access (state.place id hold) hold.setStatus }
  have compared : program.LockReachable frame kernel
      (LockState.inside state a id hold.ring .compared) := by
    apply locked.takes bound
    rw [Program.lockStep_set exited current setting]
    simp [Program.lockSetStatus, LockState.inside, status]
  have written : program.LockReachable frame kernel
      (LockState.inside released a id hold.ring .written) := by
    apply compared.takes bound
    rw [Program.lockStep_set exited current setting]
    simp [Program.lockSetStatus, LockState.write, LockState.inside, released]
  apply written.takes bound
  rw [Program.lockStep_set exited current setting]
  simp [Program.lockSetStatus, LockState.unsetLock, LockState.withLocal, LockState.inside,
    LockState.outside, released]

theorem Program.LockReachable.exits (bound : id < program.threads)
    (reachable : program.LockReachable frame kernel (LockState.outside state a))
    (exited : state.exited = false) (current : program.current state id = some hold)
    (setting : (state.locals id).phase = .set)
    (lost : state.access (state.place id hold) ≠ hold.state) :
    program.LockReachable frame kernel (LockState.outside { state with exited := true } a) := by
  have locked := reachable.enters bound exited current (by simp [setting])
  apply locked.takes bound
  rw [Program.lockStep_set exited current setting]
  simp [Program.lockSetStatus, LockState.unsetLock, LockState.inside, LockState.outside, lost]

theorem Program.lock_reachable (reachable : program.Reachable frame kernel state) :
    ∃ a, program.LockReachable frame kernel (LockState.outside state a) := by
  induction reachable with
  | start first => exact ⟨fun _ => 0, .start ⟨first, fun _ => rfl, fun _ => rfl⟩⟩
  | @step state _ _ next ih =>
      obtain ⟨a, reached⟩ := ih
      obtain ⟨id, bound, rfl⟩ := next
      cases exited : state.exited with
      | true =>
          simp only [Program.step, exited, if_true]
          exact ⟨a, reached⟩
      | false =>
          rcases program.step_cases frame kernel id exited with same | ⟨hold, current, step⟩
          · rw [same]
            exact ⟨a, reached⟩
          · rcases step with ⟨waiting, status, taken⟩ | ⟨accessing, taken⟩ |
              ⟨setting, status, taken⟩ | ⟨setting, lost, taken⟩ <;> rw [taken]
            · exact ⟨_, reached.waits bound exited current waiting status⟩
            · refine ⟨a, reached.takes bound ?_⟩
              have unexited : (LockState.outside state a).state.exited = false := exited
              have found : program.current (LockState.outside state a).state id = some hold :=
                current
              have phase : ((LockState.outside state a).state.locals id).phase = .access :=
                accessing
              simp only [Program.lockStep, unexited, Bool.false_eq_true, if_false, found, phase]
              rfl
            · exact ⟨a, reached.sets bound exited current setting status⟩
            · exact ⟨a, reached.exits bound exited current setting lost⟩

end Alone

/-- Where no whole section changes the state, the threads set and unset their
locks and look in vain. -/
theorem Program.LockReachable.still {state : State α β} {last : LockState α β}
    (reachable : program.LockReachable frame kernel lock) (same : program.sections lock = state)
    (idle : ∀ id < program.threads, program.step frame kernel state id = state)
    (continued : Transition.Reachable (· = lock) (program.LockNext frame kernel) last) :
    program.LockInvariant last ∧ program.sections last = state := by
  induction continued with
  | start first =>
      rw [first]
      exact ⟨(Program.sections_reachable reachable).1, same⟩
  | @step before _ _ next ih =>
      obtain ⟨invariant, unchanged⟩ := ih
      obtain ⟨id, bound, rfl⟩ := next
      obtain ⟨_, after, refined⟩ : program.Refines frame kernel before
        (program.lockStep frame kernel before id) id := invariant.step
      refine ⟨after, ?_⟩
      rcases refined with kept | stepped
      · exact kept.trans unchanged
      · rw [stepped, unchanged]
        exact idle id bound

theorem Program.not_stuck_of_lock_finishes (roster : Roster program)
    (finishes : program.LockFinishes frame kernel) {state : State α β}
    (reachable : program.Reachable frame kernel state) : ¬program.Stuck state := by
  rintro ⟨⟨id, bound, running⟩, waiting⟩
  have exited := (roster.invariant_of_reachable reachable).exited
  have idle : ∀ other < program.threads, program.step frame kernel state other = state := by
    intro other otherBound
    by_cases otherRunning : program.Running state other
    · exact Program.step_idle exited (Or.inr (waiting other otherBound otherRunning))
    · exact Program.step_idle exited (Or.inl otherRunning)
  obtain ⟨a, reached⟩ := Program.lock_reachable reachable
  obtain ⟨last, continued, finished⟩ := finishes _ reached
  obtain ⟨invariant, same⟩ :=
    reached.still (Program.sections_unlocked fun _ => rfl) idle continued
  have ended := finished id bound
  have point : last.point id = .unlocked := by
    apply (invariant.knows id).finished
    rw [Program.Running, Bool.not_eq_true, Option.isSome_eq_false_iff,
      Option.isNone_iff_eq_none] at ended
    exact ended
  have locals : (program.sections last).locals id = last.state.locals id :=
    Program.sectionLocal_unlocked point
  have own : state.locals id = last.state.locals id := by
    rw [← locals, same]
    rfl
  exact ended ((Program.running_congr (by rw [own]) (by rw [own])).mp running)

theorem Program.lock_finishes_iff (roster : Roster program) :
    program.LockFinishes frame kernel ↔
      ∀ state : State α β, program.Reachable frame kernel state → ¬program.Stuck state := by
  constructor
  · intro finishes state reachable
    exact Program.not_stuck_of_lock_finishes roster finishes reachable
  · exact Program.lock_finishes roster

/-- The locks neither bring a deadlock nor take one away: the threads can always
reach their end exactly when the program of whole sections never gets stuck. -/
theorem programs_lock_finish_iff (known : MultiThread program) :
    program.LockFinishes frame kernel ↔
      ∀ state : State α β, program.Reachable frame kernel state → ¬program.Stuck state := by
  obtain ⟨roster⟩ := known.exists_roster
  exact Program.lock_finishes_iff roster

end Progress

theorem programs_lock_finish_process : (process 4 5 4).LockFinishes (fun i => i) fun i : Nat => i + 7 :=
  (programs_lock_finish_iff (.process (by decide : 0 < 2) (by decide))).mpr
    fun _ reachable => process_not_stuck (by decide) (by decide) (by decide) reachable

end RockAMali
