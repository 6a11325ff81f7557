import RockAMali.Liveness

/-!
The threads at the grain of `thread_lock.hpp`: each call of `omp_set_lock` and
`omp_unset_lock`, each read and each write of a status byte is a step of its
own. This program refines the one whose steps are whole locked sections.
-/

namespace RockAMali

/-! Where a thread is in `wait_for_status` or `set_status`: before the lock is
set, before the byte is read or compared, before it is written, before the lock
is unset, and, in `wait_for_status`, before the test of the loop. -/

inductive Point
  | unlocked
  | locked
  | compared
  | written
  | looked
deriving DecidableEq

/-- `owner` is the thread that has set the lock of a ring, and `a` the variable
of `wait_for_status`. -/
structure LockState (α β : Type*) where
  state : State α β
  owner : Ring → Option Nat
  point : Nat → Point
  a : Nat → Taccess

section Semantics

variable {α β : Type*} (frame : Nat → α) (kernel : α → β) (program : Program)
  (lock : LockState α β) (id : Nat) (hold : Hold)

/-- `omp_set_lock`, where the thread stays as long as another has the lock. -/
def LockState.setLock : LockState α β :=
  if lock.owner hold.ring = none then
    { lock with
      owner := Function.update lock.owner hold.ring (some id)
      point := Function.update lock.point id .locked }
  else lock

def LockState.write (status : Taccess) : LockState α β :=
  { lock with
    state := { lock.state with
      access := Function.update lock.state.access (lock.state.place id hold) status }
    point := Function.update lock.point id .written }

def LockState.unsetLock (point : Point) : LockState α β :=
  { lock with
    owner := Function.update lock.owner hold.ring none
    point := Function.update lock.point id point }

def LockState.withLocal (own : Local β) : LockState α β :=
  { lock with state := { lock.state with locals := Function.update lock.state.locals id own } }

def LockState.waitForStatus : LockState α β :=
  match lock.point id with
  | .unlocked => lock.setLock id hold
  -- a=what;
  | .locked =>
      { lock with
        a := Function.update lock.a id (lock.state.access (lock.state.place id hold))
        point := Function.update lock.point id .compared }
  -- if(a==status) {what=new_status;do_sleep=false;}
  | .compared =>
      if lock.a id = hold.waitStatus then lock.write id hold hold.state
      else { lock with point := Function.update lock.point id .written }
  | .written => lock.unsetLock id hold .looked
  -- while(a!=status)
  | .looked =>
      let again := { lock with point := Function.update lock.point id .unlocked }
      if lock.a id = hold.waitStatus then
        again.withLocal id { lock.state.locals id with phase := .access }
      else again

def Program.lockSetStatus : LockState α β :=
  match lock.point id with
  | .unlocked => lock.setLock id hold
  -- if(what!=old_status) {..;omp_unset_lock(p_access_lock);exit(99);}
  | .locked =>
      if lock.state.access (lock.state.place id hold) ≠ hold.state then
        { lock.unsetLock id hold .unlocked with state := { lock.state with exited := true } }
      else { lock with point := Function.update lock.point id .compared }
  -- what=status;
  | .compared => lock.write id hold hold.setStatus
  | _ =>
      (lock.unsetLock id hold .unlocked).withLocal id
        ((lock.state.locals id).advance program.nbuffer (program.thread id))

def Program.lockStep : LockState α β :=
  if lock.state.exited then lock
  else
    match program.current lock.state id with
    | none => lock
    | some hold =>
        match (lock.state.locals id).phase with
        | .wait => lock.waitForStatus id hold
        | .access => { lock with state := lock.state.perform frame kernel id hold }
        | .set => program.lockSetStatus lock id hold

structure Program.LockInitial : Prop where
  state : program.Initial lock.state
  owner : ∀ ring, lock.owner ring = none
  point : ∀ id, lock.point id = .unlocked

def Program.LockNext (successor : LockState α β) : Prop :=
  ∃ id < program.threads, successor = program.lockStep frame kernel lock id

def Program.LockReachable : Prop :=
  Transition.Reachable program.LockInitial (program.LockNext frame kernel) lock

def Program.Inside (ring : Ring) : Prop :=
  ∃ hold, program.current lock.state id = some hold ∧ hold.ring = ring ∧
    (lock.point id = .locked ∨ lock.point id = .compared ∨ lock.point id = .written)

/-! A locked section counts as done with the write of the status. -/

def Program.sectionLocal : Local β :=
  match program.current lock.state id, (lock.state.locals id).phase, lock.point id with
  | some hold, .wait, .written | some hold, .wait, .looked =>
      if lock.a id = hold.waitStatus then { lock.state.locals id with phase := .access }
      else lock.state.locals id
  | some _, .set, .written =>
      (lock.state.locals id).advance program.nbuffer (program.thread id)
  | _, _, _ => lock.state.locals id

def Program.sections : State α β :=
  { lock.state with locals := program.sectionLocal lock }

structure Program.Knows : Prop where
  looks : ∀ hold, program.current lock.state id = some hold →
    (lock.state.locals id).phase = .wait → lock.point id = .compared →
      lock.a id = lock.state.access (lock.state.place id hold)
  sets : ∀ hold, program.current lock.state id = some hold →
    (lock.state.locals id).phase = .set → lock.point id = .compared →
      lock.state.access (lock.state.place id hold) = hold.state
  accesses : (lock.state.locals id).phase = .access → lock.point id = .unlocked
  looked : lock.point id = .looked → (lock.state.locals id).phase = .wait
  finished : program.current lock.state id = none → lock.point id = .unlocked

structure Program.LockInvariant : Prop where
  owner : ∀ ring id, lock.owner ring = some id ↔ program.Inside lock id ring
  knows : ∀ id, program.Knows lock id

end Semantics

section Invariant

variable {α β : Type*} {frame : Nat → α} {kernel : α → β} {program : Program}
  {lock next : LockState α β} {id : Nat} {hold : Hold} {ring : Ring}

theorem Program.inside_congr (locals : next.state.locals id = lock.state.locals id)
    (point : next.point id = lock.point id) :
    program.Inside next id ring ↔ program.Inside lock id ring := by
  have current : program.current next.state id = program.current lock.state id :=
    Program.current_congr (by rw [locals]) (by rw [locals])
  simp only [Program.Inside, current, point]

structure Program.Moves (program : Program) (lock next : LockState α β) (id : Nat) : Prop where
  locals : ∀ other, other ≠ id → next.state.locals other = lock.state.locals other
  point : ∀ other, other ≠ id → next.point other = lock.point other
  a : ∀ other, other ≠ id → next.a other = lock.a other
  access : ∀ place, next.state.access place = lock.state.access place ∨
    program.Inside lock id place.1
  owner : ∀ ring other, other ≠ id →
    (next.owner ring = some other ↔ lock.owner ring = some other)

theorem Program.LockInvariant.moves (invariant : program.LockInvariant lock)
    (moves : program.Moves lock next id)
    (own : ∀ ring, next.owner ring = some id ↔ program.Inside next id ring)
    (knows : program.Knows next id) : program.LockInvariant next := by
  constructor
  · intro ring other
    by_cases same : other = id
    · rw [same]
      exact own ring
    · rw [moves.owner ring other same, invariant.owner,
        Program.inside_congr (moves.locals other same) (moves.point other same)]
  · intro other
    by_cases same : other = id
    · rw [same]
      exact knows
    · have locals := moves.locals other same
      have point := moves.point other same
      have current : program.current next.state other = program.current lock.state other :=
        Program.current_congr (by rw [locals]) (by rw [locals])
      have place (hold : Hold) : next.state.place other hold = lock.state.place other hold := by
        simp only [State.place, locals]
      -- who has read or compared a status has the lock of its ring
      have kept (hold : Hold) (found : program.current lock.state other = some hold)
          (compared : lock.point other = .compared) :
          next.state.access (lock.state.place other hold) =
            lock.state.access (lock.state.place other hold) := by
        rcases moves.access (lock.state.place other hold) with unchanged | inside
        · exact unchanged
        · have mine := (invariant.owner _ _).mpr inside
          have theirs := (invariant.owner hold.ring other).mpr
            ⟨hold, found, rfl, Or.inr (Or.inl compared)⟩
          exact (same (Option.some.inj (theirs.symm.trans mine))).elim
      obtain ⟨looks, sets, accesses, looked, finished⟩ := invariant.knows other
      constructor
      · intro hold found waiting compared
        rw [current] at found
        rw [point] at compared
        rw [locals] at waiting
        rw [place, kept hold found compared, moves.a other same]
        exact looks hold found waiting compared
      · intro hold found setting compared
        rw [current] at found
        rw [point] at compared
        rw [locals] at setting
        rw [place, kept hold found compared]
        exact sets hold found setting compared
      · rw [locals, point]
        exact accesses
      · rw [locals, point]
        exact looked
      · rw [current, point]
        exact finished

theorem Program.Moves.sectionLocal (moves : program.Moves lock next id) {other : Nat}
    (different : other ≠ id) :
    program.sectionLocal next other = program.sectionLocal lock other := by
  have locals := moves.locals other different
  have current : program.current next.state other = program.current lock.state other :=
    Program.current_congr (by rw [locals]) (by rw [locals])
  simp only [Program.sectionLocal, current, locals, moves.point other different,
    moves.a other different]

theorem Program.Moves.sections (moves : program.Moves lock next id) :
    program.sections next = { next.state with
      locals := Function.update (program.sectionLocal lock) id
        (program.sectionLocal next id) } := by
  simp only [Program.sections, State.mk.injEq, true_and, and_true]
  funext other
  by_cases same : other = id
  · rw [same, Function.update_self]
  · rw [Function.update_of_ne same, moves.sectionLocal same]

theorem Program.Moves.sections_same (moves : program.Moves lock next id)
    (access : next.state.access = lock.state.access) (data : next.state.data = lock.state.data)
    (exited : next.state.exited = lock.state.exited)
    (own : program.sectionLocal next id = program.sectionLocal lock id) :
    program.sections next = program.sections lock := by
  rw [moves.sections, own, Function.update_eq_self]
  simp only [Program.sections, access, data, exited]

theorem Program.moves_refl : program.Moves lock lock id := by
  constructor
  · exact fun _ _ => rfl
  · exact fun _ _ => rfl
  · exact fun _ _ => rfl
  · exact fun _ => Or.inl rfl
  · exact fun _ _ _ => Iff.rfl

theorem Program.moves_point (point : Point) :
    program.Moves lock { lock with point := Function.update lock.point id point } id := by
  constructor
  · exact fun _ _ => rfl
  · exact fun other different => Function.update_of_ne different _ _
  · exact fun _ _ => rfl
  · exact fun _ => Or.inl rfl
  · exact fun _ _ _ => Iff.rfl

theorem Program.moves_local (own : Local β) (point : Point) :
    program.Moves lock
      (({ lock with point := Function.update lock.point id point } :
        LockState α β).withLocal id own) id := by
  constructor
  · exact fun other different => Function.update_of_ne different _ _
  · exact fun other different => Function.update_of_ne different _ _
  · exact fun _ _ => rfl
  · exact fun _ => Or.inl rfl
  · exact fun _ _ _ => Iff.rfl

theorem Program.moves_write (inside : program.Inside lock id hold.ring) (status : Taccess) :
    program.Moves lock (lock.write id hold status) id := by
  constructor
  · exact fun _ _ => rfl
  · exact fun other different => Function.update_of_ne different _ _
  · exact fun _ _ => rfl
  · intro place
    by_cases here : place = lock.state.place id hold
    · right
      rw [here]
      exact inside
    · exact Or.inl (Function.update_of_ne here _ _)
  · exact fun _ _ _ => Iff.rfl

theorem Program.moves_setLock (free : lock.owner hold.ring = none) :
    program.Moves lock (lock.setLock id hold) id := by
  simp only [LockState.setLock, if_pos free]
  constructor
  · exact fun _ _ => rfl
  · exact fun other different => Function.update_of_ne different _ _
  · exact fun _ _ => rfl
  · exact fun _ => Or.inl rfl
  · intro ring other different
    by_cases same : ring = hold.ring
    · subst same
      simp [free, Ne.symm different]
    · simp only [Function.update_of_ne same]

theorem Program.moves_unsetLock (mine : lock.owner hold.ring = some id) (point : Point) :
    program.Moves lock (lock.unsetLock id hold point) id := by
  constructor
  · exact fun _ _ => rfl
  · exact fun other different => Function.update_of_ne different _ _
  · exact fun _ _ => rfl
  · exact fun _ => Or.inl rfl
  · intro ring other different
    by_cases same : ring = hold.ring
    · subst same
      simp [LockState.unsetLock, mine, Ne.symm different]
    · simp only [LockState.unsetLock, Function.update_of_ne same]

theorem Program.sectionLocal_unlocked (point : lock.point id = .unlocked) :
    program.sectionLocal lock id = lock.state.locals id := by
  simp only [Program.sectionLocal, point]
  cases program.current lock.state id with
  | none => rfl
  | some hold => cases (lock.state.locals id).phase <;> rfl

theorem Program.inside_iff (current : program.current lock.state id = some hold) :
    program.Inside lock id ring ↔ hold.ring = ring ∧
      (lock.point id = .locked ∨ lock.point id = .compared ∨ lock.point id = .written) := by
  constructor
  · rintro ⟨other, found, ringEq, point⟩
    rw [current] at found
    rw [Option.some.inj found]
    exact ⟨ringEq, point⟩
  · rintro ⟨ringEq, point⟩
    exact ⟨hold, current, ringEq, point⟩

theorem Program.not_inside (outside : lock.point id = .unlocked ∨ lock.point id = .looked) :
    ¬program.Inside lock id ring := by
  rintro ⟨_, _, _, point⟩
  rcases outside with outside | outside <;> simp [outside] at point

theorem Program.LockInvariant.own_kept (invariant : program.LockInvariant lock)
    (current : program.current lock.state id = some hold)
    (inside : lock.point id = .locked ∨ lock.point id = .compared ∨ lock.point id = .written)
    (owner : next.owner = lock.owner) (same : program.current next.state id = some hold)
    (still : next.point id = .locked ∨ next.point id = .compared ∨ next.point id = .written) :
    next.owner ring = some id ↔ program.Inside next id ring := by
  rw [owner, invariant.owner, Program.inside_iff current, Program.inside_iff same]
  simp only [inside, still, and_true]

theorem Program.LockInvariant.own_none (invariant : program.LockInvariant lock)
    (outside : lock.point id = .unlocked ∨ lock.point id = .looked)
    (owner : next.owner = lock.owner)
    (still : next.point id = .unlocked ∨ next.point id = .looked) :
    next.owner ring = some id ↔ program.Inside next id ring := by
  rw [owner, invariant.owner]
  exact iff_of_false (Program.not_inside outside) (Program.not_inside still)

theorem Program.LockInvariant.own_given (invariant : program.LockInvariant lock)
    (current : program.current lock.state id = some hold)
    (owner : next.owner = Function.update lock.owner hold.ring none)
    (outside : next.point id = .unlocked ∨ next.point id = .looked) :
    next.owner ring = some id ↔ program.Inside next id ring := by
  apply iff_of_false _ (Program.not_inside outside)
  rw [owner]
  by_cases same : ring = hold.ring
  · simp [same]
  · rw [Function.update_of_ne same, invariant.owner, Program.inside_iff current]
    rintro ⟨equal, _⟩
    exact same equal.symm

theorem Program.sections_current (current : program.current lock.state id = some hold)
    (own : program.sectionLocal lock id = lock.state.locals id) :
    (program.sections lock).locals id = lock.state.locals id ∧
      program.current (program.sections lock) id = some hold ∧
      (program.sections lock).place id hold = lock.state.place id hold := by
  have locals : (program.sections lock).locals id = lock.state.locals id := own
  refine ⟨locals, ?_, ?_⟩
  · rw [← current]
    exact Program.current_congr (by rw [locals]) (by rw [locals])
  · simp only [State.place, locals]

structure Program.Refines (program : Program) (frame : Nat → α) (kernel : α → β)
    (lock next : LockState α β) (id : Nat) : Prop where
  moves : program.Moves lock next id
  invariant : program.LockInvariant next
  sections : program.sections next = program.sections lock ∨
    program.sections next = program.step frame kernel (program.sections lock) id

theorem Program.knows_of_ne (found : program.current next.state id = some hold)
    (outside : (next.state.locals id).phase = .access → next.point id = .unlocked)
    (elsewhere : next.point id ≠ .compared)
    (looked : next.point id = .looked → (next.state.locals id).phase = .wait) :
    program.Knows next id := by
  refine ⟨?_, ?_, outside, looked, ?_⟩
  · exact fun _ _ _ compared => (elsewhere compared).elim
  · exact fun _ _ _ compared => (elsewhere compared).elim
  · intro finished
    simp [found] at finished

theorem Program.knows_unlocked (point : next.point id = .unlocked) : program.Knows next id := by
  constructor
  · intro _ _ _ compared
    simp [point] at compared
  · intro _ _ _ compared
    simp [point] at compared
  · exact fun _ => point
  · intro looked
    simp [point] at looked
  · exact fun _ => point

theorem Program.LockInvariant.setLock_refines (invariant : program.LockInvariant lock)
    (current : program.current lock.state id = some hold)
    (outside : (lock.state.locals id).phase ≠ .access) (point : lock.point id = .unlocked) :
    program.Refines frame kernel lock (lock.setLock id hold) id := by
  by_cases free : lock.owner hold.ring = none
  · have moves : program.Moves lock (lock.setLock id hold) id := Program.moves_setLock free
    have here : (lock.setLock id hold).point id = .locked := by
      simp [LockState.setLock, free]
    have state : (lock.setLock id hold).state = lock.state := by
      simp [LockState.setLock, free]
    have found : program.current (lock.setLock id hold).state id = some hold := by
      rw [state, current]
    refine ⟨moves, ?_, ?_⟩
    · apply invariant.moves moves
      · intro ring
        rw [Program.inside_iff found]
        simp only [here, true_or, and_true]
        by_cases same : hold.ring = ring
        · subst same
          simp [LockState.setLock, free]
        · have before := invariant.owner ring id
          simp only [Program.not_inside (Or.inl point), iff_false] at before
          simp [LockState.setLock, free, same, Ne.symm same, before]
      · apply Program.knows_of_ne found
        · intro accessing
          rw [state] at accessing
          exact (outside accessing).elim
        · simp [here]
        · simp [here]
    · left
      apply moves.sections_same (by rw [state]) (by rw [state]) (by rw [state])
      simp only [Program.sectionLocal, current, here, point, state]
      cases (lock.state.locals id).phase <;> rfl
  · have same : lock.setLock id hold = lock := if_neg free
    rw [same]
    exact ⟨Program.moves_refl, invariant, Or.inl rfl⟩

theorem Program.LockInvariant.wait_locked (invariant : program.LockInvariant lock)
    (current : program.current lock.state id = some hold)
    (waiting : (lock.state.locals id).phase = .wait) (point : lock.point id = .locked) :
    program.Refines frame kernel lock (lock.waitForStatus id hold) id := by
  simp only [LockState.waitForStatus, point]
  generalize taken : ({ lock with
    a := Function.update lock.a id (lock.state.access (lock.state.place id hold))
    point := Function.update lock.point id .compared } : LockState α β) = next
  have here : next.point id = .compared := by simp [← taken]
  have state : next.state = lock.state := by simp [← taken]
  have found : program.current next.state id = some hold := by rw [state, current]
  have moves : program.Moves lock next id := by
    subst taken
    constructor
    · exact fun _ _ => rfl
    · exact fun other different => Function.update_of_ne different _ _
    · exact fun other different => Function.update_of_ne different _ _
    · exact fun _ => Or.inl rfl
    · exact fun _ _ _ => Iff.rfl
  refine ⟨moves, ?_, ?_⟩
  · apply invariant.moves moves
    · intro ring
      exact invariant.own_kept current (by simp [point]) (by simp [← taken]) found
        (by simp [here])
    · constructor
      · intro other same _ _
        rw [found] at same
        simp [← taken, Option.some.inj same]
      · intro _ _ setting
        simp [state, waiting] at setting
      · intro accessing
        simp [state, waiting] at accessing
      · intro looked
        simp [here] at looked
      · intro finished
        simp [found] at finished
  · left
    apply moves.sections_same (by rw [state]) (by rw [state]) (by rw [state])
    simp only [Program.sectionLocal, current, here, point, state, waiting]

theorem Program.LockInvariant.wait_compared (invariant : program.LockInvariant lock)
    (exited : lock.state.exited = false) (current : program.current lock.state id = some hold)
    (waiting : (lock.state.locals id).phase = .wait) (point : lock.point id = .compared) :
    program.Refines frame kernel lock (lock.waitForStatus id hold) id := by
  have inside : program.Inside lock id hold.ring :=
    ⟨hold, current, rfl, Or.inr (Or.inl point)⟩
  have read := (invariant.knows id).looks hold current waiting point
  simp only [LockState.waitForStatus, point]
  by_cases free : lock.a id = hold.waitStatus
  · rw [if_pos free]
    have moves : program.Moves lock (lock.write id hold hold.state) id :=
      Program.moves_write inside hold.state
    have here : (lock.write id hold hold.state).point id = .written := by
      simp [LockState.write]
    have locals : (lock.write id hold hold.state).state.locals = lock.state.locals := rfl
    have found : program.current (lock.write id hold hold.state).state id = some hold := by
      rw [← current]
      exact Program.current_congr (by rw [locals]) (by rw [locals])
    refine ⟨moves, ?_, ?_⟩
    · apply invariant.moves moves
      · intro ring
        exact invariant.own_kept current (by simp [point]) rfl found (by simp [here])
      · apply Program.knows_of_ne found
        · simp [locals, waiting]
        · simp [here]
        · simp [here]
    · right
      have own : program.sectionLocal lock id = lock.state.locals id := by
        simp only [Program.sectionLocal, current, waiting, point]
      have done : program.sectionLocal (lock.write id hold hold.state) id =
          { lock.state.locals id with phase := .access } := by
        simp only [Program.sectionLocal, found, here, locals, waiting]
        exact if_pos free
      obtain ⟨mine, same, place⟩ := Program.sections_current current own
      have unexited : (program.sections lock).exited = false := exited
      have status : (program.sections lock).access ((program.sections lock).place id hold) =
          hold.waitStatus := by
        rw [place, ← free, read]
        rfl
      rw [moves.sections, done, Program.step_wait unexited same (by rw [mine, waiting]) status,
        place, mine]
      rfl
  · rw [if_neg free]
    have moves : program.Moves lock _ id := Program.moves_point .written
    refine ⟨moves, invariant.moves moves ?_ ?_, Or.inl (moves.sections_same rfl rfl rfl ?_)⟩
    · intro ring
      exact invariant.own_kept current (by simp [point]) rfl current (by simp)
    · exact Program.knows_of_ne current (by simp [waiting]) (by simp) (by simp)
    · simp [Program.sectionLocal, current, waiting, point, free]

theorem Program.LockInvariant.wait_written (invariant : program.LockInvariant lock)
    (current : program.current lock.state id = some hold)
    (waiting : (lock.state.locals id).phase = .wait) (point : lock.point id = .written) :
    program.Refines frame kernel lock (lock.waitForStatus id hold) id := by
  have mine := (invariant.owner hold.ring id).mpr ⟨hold, current, rfl, by simp [point]⟩
  have moves : program.Moves lock (lock.unsetLock id hold .looked) id :=
    Program.moves_unsetLock mine .looked
  simp only [LockState.waitForStatus, point]
  refine ⟨moves, invariant.moves moves ?_ ?_, Or.inl (moves.sections_same rfl rfl rfl ?_)⟩
  · intro ring
    exact invariant.own_given current rfl (by simp [LockState.unsetLock])
  · exact Program.knows_of_ne current (by simp [LockState.unsetLock, waiting])
      (by simp [LockState.unsetLock]) (by simp [LockState.unsetLock, waiting])
  · simp only [Program.sectionLocal, LockState.unsetLock, Function.update_self, current,
      waiting, point]
    rfl

theorem Program.LockInvariant.wait_looked (invariant : program.LockInvariant lock)
    (current : program.current lock.state id = some hold)
    (waiting : (lock.state.locals id).phase = .wait) (point : lock.point id = .looked) :
    program.Refines frame kernel lock (lock.waitForStatus id hold) id := by
  simp only [LockState.waitForStatus, point]
  by_cases free : lock.a id = hold.waitStatus
  · rw [if_pos free]
    have moves : program.Moves lock _ id :=
      Program.moves_local { lock.state.locals id with phase := .access } .unlocked
    refine ⟨moves, invariant.moves moves ?_ ?_, Or.inl (moves.sections_same rfl rfl rfl ?_)⟩
    · intro ring
      exact invariant.own_none (Or.inr point) rfl (by simp [LockState.withLocal])
    · exact Program.knows_unlocked (by simp [LockState.withLocal])
    · have found : program.current (({ lock with
          point := Function.update lock.point id .unlocked } : LockState α β).withLocal id
            { lock.state.locals id with phase := .access }).state id = some hold := by
        rw [← current]
        exact Program.current_congr (by simp [LockState.withLocal])
          (by simp [LockState.withLocal])
      simp only [Program.sectionLocal, found, current]
      simp [LockState.withLocal, waiting, point, free]
  · rw [if_neg free]
    have moves : program.Moves lock _ id := Program.moves_point .unlocked
    refine ⟨moves, invariant.moves moves ?_ ?_, Or.inl (moves.sections_same rfl rfl rfl ?_)⟩
    · intro ring
      exact invariant.own_none (Or.inr point) rfl (by simp)
    · exact Program.knows_unlocked (by simp)
    · simp [Program.sectionLocal, current, waiting, point, free]

theorem Program.LockInvariant.wait_refines (invariant : program.LockInvariant lock)
    (exited : lock.state.exited = false) (current : program.current lock.state id = some hold)
    (waiting : (lock.state.locals id).phase = .wait) :
    program.Refines frame kernel lock (lock.waitForStatus id hold) id := by
  cases point : lock.point id with
  | unlocked =>
      simp only [LockState.waitForStatus, point]
      exact invariant.setLock_refines current (by simp [waiting]) point
  | locked => exact invariant.wait_locked current waiting point
  | compared => exact invariant.wait_compared exited current waiting point
  | written => exact invariant.wait_written current waiting point
  | looked => exact invariant.wait_looked current waiting point

theorem Program.LockInvariant.set_locked (invariant : program.LockInvariant lock)
    (exited : lock.state.exited = false) (current : program.current lock.state id = some hold)
    (setting : (lock.state.locals id).phase = .set) (point : lock.point id = .locked) :
    program.Refines frame kernel lock (program.lockSetStatus lock id hold) id := by
  have mine := (invariant.owner hold.ring id).mpr ⟨hold, current, rfl, by simp [point]⟩
  have own : program.sectionLocal lock id = lock.state.locals id := by
    simp only [Program.sectionLocal, current, setting, point]
  simp only [Program.lockSetStatus, point]
  by_cases lost : lock.state.access (lock.state.place id hold) = hold.state
  · rw [if_neg (not_not_intro lost)]
    have moves : program.Moves lock _ id := Program.moves_point .compared
    refine ⟨moves, invariant.moves moves ?_ ?_, Or.inl (moves.sections_same rfl rfl rfl ?_)⟩
    · intro ring
      exact invariant.own_kept current (by simp [point]) rfl current (by simp)
    · constructor
      · intro _ _ waiting
        simp [setting] at waiting
      · intro other same _ _
        rw [← Option.some.inj (current.symm.trans same)]
        exact lost
      · simp [setting]
      · simp
      · simp [current]
    · simp [Program.sectionLocal, current, setting, point]
  · rw [if_pos lost]
    have unset : program.Moves lock (lock.unsetLock id hold .unlocked) id :=
      Program.moves_unsetLock mine .unlocked
    have moves : program.Moves lock
        { lock.unsetLock id hold .unlocked with
          state := { lock.state with exited := true } } id :=
      ⟨unset.locals, unset.point, unset.a, unset.access, unset.owner⟩
    refine ⟨moves, invariant.moves moves ?_ ?_, Or.inr ?_⟩
    · intro ring
      exact invariant.own_given current rfl (by simp [LockState.unsetLock])
    · exact Program.knows_unlocked (by simp [LockState.unsetLock])
    · obtain ⟨same, found, place⟩ := Program.sections_current current own
      have unexited : (program.sections lock).exited = false := exited
      have status : (program.sections lock).access ((program.sections lock).place id hold) ≠
          hold.state := by
        rw [place]
        exact lost
      have still : program.sectionLocal { lock.unsetLock id hold .unlocked with
          state := { lock.state with exited := true } } id = lock.state.locals id := by
        have found : program.current { lock.state with exited := true } id = some hold :=
          current
        simp [Program.sectionLocal, LockState.unsetLock, found, setting]
      rw [moves.sections, still, ← own, Function.update_eq_self,
        Program.step_exit unexited found (by rw [same, setting]) status]
      rfl

theorem Program.LockInvariant.set_compared (invariant : program.LockInvariant lock)
    (exited : lock.state.exited = false) (current : program.current lock.state id = some hold)
    (setting : (lock.state.locals id).phase = .set) (point : lock.point id = .compared) :
    program.Refines frame kernel lock (program.lockSetStatus lock id hold) id := by
  have inside : program.Inside lock id hold.ring :=
    ⟨hold, current, rfl, Or.inr (Or.inl point)⟩
  have status := (invariant.knows id).sets hold current setting point
  have own : program.sectionLocal lock id = lock.state.locals id := by
    simp only [Program.sectionLocal, current, setting, point]
  simp only [Program.lockSetStatus, point]
  have moves : program.Moves lock (lock.write id hold hold.setStatus) id :=
    Program.moves_write inside hold.setStatus
  have here : (lock.write id hold hold.setStatus).point id = .written := by
    simp [LockState.write]
  have locals : (lock.write id hold hold.setStatus).state.locals = lock.state.locals := rfl
  have found : program.current (lock.write id hold hold.setStatus).state id = some hold := by
    rw [← current]
    exact Program.current_congr (by rw [locals]) (by rw [locals])
  refine ⟨moves, invariant.moves moves ?_ ?_, Or.inr ?_⟩
  · intro ring
    exact invariant.own_kept current (by simp [point]) rfl found (by simp [here])
  · exact Program.knows_of_ne found (by simp [locals, setting]) (by simp [here])
      (by simp [here])
  · have done : program.sectionLocal (lock.write id hold hold.setStatus) id =
        (lock.state.locals id).advance program.nbuffer (program.thread id) := by
      simp only [Program.sectionLocal, found, here, locals, setting]
    obtain ⟨mine, same, place⟩ := Program.sections_current current own
    have unexited : (program.sections lock).exited = false := exited
    have held : (program.sections lock).access ((program.sections lock).place id hold) =
        hold.state := by
      rw [place]
      exact status
    rw [moves.sections, done, Program.step_set unexited same (by rw [mine, setting]) held,
      place, mine]
    rfl

theorem Program.LockInvariant.set_written (invariant : program.LockInvariant lock)
    (current : program.current lock.state id = some hold)
    (setting : (lock.state.locals id).phase = .set) (point : lock.point id = .written) :
    program.Refines frame kernel lock (program.lockSetStatus lock id hold) id := by
  have mine := (invariant.owner hold.ring id).mpr ⟨hold, current, rfl, by simp [point]⟩
  have unset : program.Moves lock (lock.unsetLock id hold .unlocked) id :=
    Program.moves_unsetLock mine .unlocked
  simp only [Program.lockSetStatus, point]
  have moves : program.Moves lock ((lock.unsetLock id hold .unlocked).withLocal id
      ((lock.state.locals id).advance program.nbuffer (program.thread id))) id := by
    refine ⟨?_, unset.point, unset.a, unset.access, unset.owner⟩
    exact fun other different => Function.update_of_ne different _ _
  refine ⟨moves, invariant.moves moves ?_ ?_, Or.inl (moves.sections_same rfl rfl rfl ?_)⟩
  · intro ring
    exact invariant.own_given current rfl (by simp [LockState.withLocal, LockState.unsetLock])
  · exact Program.knows_unlocked (by simp [LockState.withLocal, LockState.unsetLock])
  · have outside : ((lock.unsetLock id hold .unlocked).withLocal id
        ((lock.state.locals id).advance program.nbuffer (program.thread id))).point id =
          .unlocked := by
      simp [LockState.withLocal, LockState.unsetLock]
    rw [Program.sectionLocal_unlocked outside]
    simp [Program.sectionLocal, LockState.withLocal, current, setting, point]

theorem Program.LockInvariant.set_refines (invariant : program.LockInvariant lock)
    (exited : lock.state.exited = false) (current : program.current lock.state id = some hold)
    (setting : (lock.state.locals id).phase = .set) :
    program.Refines frame kernel lock (program.lockSetStatus lock id hold) id := by
  cases point : lock.point id with
  | unlocked =>
      simp only [Program.lockSetStatus, point]
      exact invariant.setLock_refines current (by simp [setting]) point
  | locked => exact invariant.set_locked exited current setting point
  | compared => exact invariant.set_compared exited current setting point
  | written => exact invariant.set_written current setting point
  | looked =>
      have waiting := (invariant.knows id).looked point
      simp [setting] at waiting

theorem Program.LockInvariant.access_refines (invariant : program.LockInvariant lock)
    (exited : lock.state.exited = false) (current : program.current lock.state id = some hold)
    (accessing : (lock.state.locals id).phase = .access) :
    program.Refines frame kernel lock
      { lock with state := lock.state.perform frame kernel id hold } id := by
  have point := (invariant.knows id).accesses accessing
  have own : program.sectionLocal lock id = lock.state.locals id :=
    Program.sectionLocal_unlocked point
  have moves : program.Moves lock
      { lock with state := lock.state.perform frame kernel id hold } id := by
    constructor
    · exact fun other different => Function.update_of_ne different _ _
    · exact fun _ _ => rfl
    · exact fun _ _ => rfl
    · exact fun _ => Or.inl rfl
    · exact fun _ _ _ => Iff.rfl
  refine ⟨moves, invariant.moves moves ?_ (Program.knows_unlocked point), Or.inr ?_⟩
  · intro ring
    exact invariant.own_none (Or.inl point) rfl (Or.inl point)
  · obtain ⟨mine, same, _⟩ := Program.sections_current current own
    have unexited : (program.sections lock).exited = false := exited
    have still : program.sectionLocal { lock with
        state := lock.state.perform frame kernel id hold } id =
          (lock.state.perform frame kernel id hold).locals id :=
      Program.sectionLocal_unlocked point
    rw [moves.sections, still, Program.step_access unexited same (by rw [mine, accessing])]
    simp only [State.perform, mine, Function.update_self]
    rfl

theorem Program.LockInvariant.step (invariant : program.LockInvariant lock) :
    program.Refines frame kernel lock (program.lockStep frame kernel lock id) id := by
  simp only [Program.lockStep]
  split
  · exact ⟨Program.moves_refl, invariant, Or.inl rfl⟩
  · rename_i running
    have exited : lock.state.exited = false := by simpa using running
    cases current : program.current lock.state id with
    | none => exact ⟨Program.moves_refl, invariant, Or.inl rfl⟩
    | some hold =>
        cases phase : (lock.state.locals id).phase with
        | wait => exact invariant.wait_refines exited current phase
        | access => exact invariant.access_refines exited current phase
        | set => exact invariant.set_refines exited current phase

theorem Program.LockInvariant.initial (first : program.LockInitial lock) :
    program.LockInvariant lock ∧ program.sections lock = lock.state := by
  constructor
  · constructor
    · intro ring id
      rw [first.owner]
      exact iff_of_false (by simp) (Program.not_inside (Or.inl (first.point id)))
    · intro id
      exact Program.knows_unlocked (first.point id)
  · have locals : program.sectionLocal lock = lock.state.locals := by
      funext id
      exact Program.sectionLocal_unlocked (first.point id)
    simp only [Program.sections, locals]

theorem Program.sections_reachable (reachable : program.LockReachable frame kernel lock) :
    program.LockInvariant lock ∧ program.Reachable frame kernel (program.sections lock) := by
  apply Transition.Reachable.simulates (program.sections) _ _ reachable
  · intro lock first
    obtain ⟨invariant, same⟩ := Program.LockInvariant.initial first
    exact ⟨invariant, same ▸ first.state⟩
  · rintro lock _ invariant ⟨id, bound, rfl⟩
    obtain ⟨_, after, refined⟩ : program.Refines frame kernel lock
      (program.lockStep frame kernel lock id) id := invariant.step
    refine ⟨after, ?_⟩
    rcases refined with same | stepped
    · exact Or.inl same
    · exact Or.inr ⟨id, bound, stepped⟩

theorem Program.locked_sections (reachable : program.LockReachable frame kernel lock) :
    (∀ ring id other, program.Inside lock id ring → program.Inside lock other ring →
      id = other) ∧ program.Reachable frame kernel (program.sections lock) := by
  obtain ⟨invariant, refined⟩ := Program.sections_reachable reachable
  refine ⟨?_, refined⟩
  intro ring id other inside otherInside
  have owner := (invariant.owner ring id).mpr inside
  exact Option.some.inj (owner.symm.trans ((invariant.owner ring other).mpr otherInside))

theorem Program.LockReachable.run (reachable : program.LockReachable frame kernel lock)
    {turns : List Nat} (members : ∀ id ∈ turns, id < program.threads) :
    program.LockReachable frame kernel (turns.foldl (program.lockStep frame kernel) lock) := by
  induction turns generalizing lock with
  | nil => exact reachable
  | cons id turns ih =>
      have bound := members id List.mem_cons_self
      exact ih (.step reachable ⟨id, bound, rfl⟩) fun other later =>
        members other (List.mem_cons_of_mem _ later)

end Invariant

theorem Program.locked_sections_process :
    let program := process 4 5 4
    let first : LockState Nat Nat :=
      ⟨program.start 0 0, fun _ => none, fun _ => .unlocked, fun _ => 0⟩
    let lock := [0, 2, 0, 0, 0, 2].foldl (program.lockStep id (· + 7)) first
    (lock.owner .images = some 2 ∧ lock.state.access (.images, 0) = stateFilling ∧
      ((program.sections lock).locals 0).phase = .access) ∧
    (∀ ring id other, program.Inside lock id ring → program.Inside lock other ring →
      id = other) ∧ program.Reachable id (· + 7) (program.sections lock) := by
  intro program first lock
  have start : program.LockReachable id (· + 7) first :=
    .start ⟨Program.start_initial 0 0, fun _ => rfl, fun _ => rfl⟩
  refine ⟨⟨by decide, by decide, by decide⟩, ?_⟩
  exact Program.locked_sections (start.run (by decide))

end RockAMali
