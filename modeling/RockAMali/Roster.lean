import RockAMali.Programs
import RockAMali.Library.Baton

/-!
Who may take a slot when. The statuses of a ring form a cycle of stations; each
hold of a thread serves one of them, and a slot is handed from one station to
the next like a baton. A roster names, for each station and slot, the one hold
that serves it, and the invariant says that the status byte tells where the
baton is.
-/

namespace RockAMali

open Relay

/-! How often a thread has accessed data, and has set a status, in its hold
number `part`. -/

section Counters

variable {β : Type*}

def Thread.iterations (thread : Thread) (own : Local β) : Nat :=
  (own.index.i - thread.run.start) / thread.run.stride

def Thread.accesses (thread : Thread) (own : Local β) (part : Nat) : Nat :=
  thread.iterations own + if part < own.hold ∨ part = own.hold ∧ own.phase = .set then 1 else 0

def Thread.releases (thread : Thread) (own : Local β) (part : Nat) : Nat :=
  thread.iterations own + if part < own.hold then 1 else 0

variable {thread : Thread} {own : Local β} {nbuffer part : Nat}

theorem Thread.iterations_index (positive : 0 < thread.run.stride) {step : Nat}
    (index : own.index = thread.run.index nbuffer step) : thread.iterations own = step := by
  rw [Thread.iterations, index, Run.label, Nat.add_sub_cancel_left, Nat.mul_div_cancel_left _ positive]

theorem Thread.accesses_acquire (waiting : own.phase = .wait) :
    thread.accesses { own with phase := .access } part = thread.accesses own part := by
  simp [Thread.accesses, Thread.iterations, waiting]

theorem Thread.accesses_perform (accessing : own.phase = .access) (image : β) :
    thread.accesses { own with phase := .set, image := image } part =
      thread.accesses own part + if part = own.hold then 1 else 0 := by
  simp only [Thread.accesses, Thread.iterations, accessing, and_true, reduceCtorEq, and_false,
    or_false]
  split <;> split <;> split <;> omega

theorem Thread.releases_phase (phase : Phase) (image : β) :
    thread.releases { own with phase := phase, image := image } part =
      thread.releases own part := by
  simp [Thread.releases, Thread.iterations]

theorem Thread.releases_le_accesses : thread.releases own part ≤ thread.accesses own part := by
  simp only [Thread.releases, Thread.accesses]
  split <;> split <;> omega

theorem Thread.iterations_advance (positive : 0 < thread.run.stride)
    (index : own.index = thread.run.index nbuffer (thread.iterations own)) :
    (own.advance nbuffer thread).index = thread.run.index nbuffer
      (thread.iterations (own.advance nbuffer thread)) ∧
    thread.iterations (own.advance nbuffer thread) =
      thread.iterations own + if own.hold + 1 < thread.iteration.length then 0 else 1 := by
  simp only [Local.advance]
  split
  · exact ⟨index, rfl⟩
  · let after : Local β :=
      { own with index := thread.run.next nbuffer own.index, hold := 0, phase := .wait }
    have next : after.index = thread.run.index nbuffer (thread.iterations own + 1) := by
      rw [Run.index_succ, ← index]
    have count := Thread.iterations_index positive next
    exact ⟨by rw [count]; exact next, count⟩

theorem Thread.releases_advance (positive : 0 < thread.run.stride)
    (index : own.index = thread.run.index nbuffer (thread.iterations own))
    (bound : part < thread.iteration.length) (held : own.hold < thread.iteration.length) :
    thread.releases (own.advance nbuffer thread) part =
      thread.releases own part + if part = own.hold then 1 else 0 := by
  simp only [Thread.releases, (Thread.iterations_advance positive index).2]
  simp only [Local.advance]
  split
  · simp only
    split <;> split <;> split <;> omega
  · simp only [Nat.not_lt_zero, if_false]
    split <;> split <;> omega

theorem Thread.accesses_advance (positive : 0 < thread.run.stride)
    (index : own.index = thread.run.index nbuffer (thread.iterations own))
    (bound : part < thread.iteration.length) (held : own.hold < thread.iteration.length)
    (setting : own.phase = .set) :
    thread.accesses (own.advance nbuffer thread) part = thread.accesses own part := by
  simp only [Thread.accesses, (Thread.iterations_advance positive index).2, setting, and_true]
  simp only [Local.advance]
  split
  · simp only [reduceCtorEq, and_false, or_false]
    split <;> split <;> omega
  · simp only [Nat.not_lt_zero, reduceCtorEq, and_false, or_self, if_false]
    split <;> omega

end Counters

def Program.slot (program : Program) (id step : Nat) : Nat :=
  (program.thread id).run.slot program.nbuffer step

structure Roster (program : Program) where
  cycle : Ring → List Taccess
  visitor : Ring → Nat → Nat → Nat × Nat
  nodup : ∀ ring, (cycle ring).Nodup
  free : ∀ ring status, (cycle ring)[0]? = some status → status = statusFree
  stride : ∀ id < program.threads, 0 < (program.thread id).run.stride
  slot : ∀ id < program.threads, ∀ step, program.slot id step < program.nbuffer
  station : ∀ id < program.threads, ∀ part hold,
    (program.thread id).iteration[part]? = some hold →
    ∃ stage, (cycle hold.ring)[stage]? = some hold.waitStatus ∧
      (cycle hold.ring)[(stage + 1) % (cycle hold.ring).length]? = some hold.setStatus ∧
      hold.state ∉ cycle hold.ring ∧
      ∀ step, visitor hold.ring stage (program.slot id step) = (id, part)
  serves : ∀ ring stage slot status, slot < program.nbuffer →
    (cycle ring)[stage]? = some status →
    (visitor ring stage slot).1 < program.threads ∧
      ∃ hold, (program.thread (visitor ring stage slot).1).iteration[
        (visitor ring stage slot).2]? = some hold ∧
        hold.ring = ring ∧ hold.waitStatus = status

namespace Roster

variable {α β : Type*} {frame : Nat → α} {kernel : α → β} {program : Program}
  {state successor : State α β} {id : Nat} {ring : Ring} {slot : Nat} {hold : Hold}

theorem same_stage (roster : Roster program) {first second : Nat} {status : Taccess}
    (firstFound : (roster.cycle ring)[first]? = some status)
    (secondFound : (roster.cycle ring)[second]? = some status) : first = second := by
  obtain ⟨firstBound, firstValue⟩ := List.getElem?_eq_some_iff.mp firstFound
  obtain ⟨secondBound, secondValue⟩ := List.getElem?_eq_some_iff.mp secondFound
  exact ((roster.nodup ring).getElem_inj_iff).mp (firstValue.trans secondValue.symm)

def served (roster : Roster program) (state : State α β) (ring : Ring) (slot stage : Nat) : Nat :=
  let visitor := roster.visitor ring stage slot
  visits (program.slot visitor.1)
    ((program.thread visitor.1).releases (state.locals visitor.1) visitor.2) slot

variable (roster : Roster program) (state) (ring) (slot)

structure Vacant (stage : Nat) : Prop where
  status : (roster.cycle ring)[stage]? = some (state.access (ring, slot))
  nobody : ∀ id < program.threads, ∀ hold, ¬program.Holds state id hold (ring, slot)

structure Occupied (stage id : Nat) (hold : Hold) : Prop where
  holds : program.Holds state id hold (ring, slot)
  visitor : roster.visitor ring stage slot = (id, (state.locals id).hold)
  wait : (roster.cycle ring)[stage]? = some hold.waitStatus
  status : state.access (ring, slot) = hold.state
  alone : ∀ other < program.threads, ∀ hold, program.Holds state other hold (ring, slot) →
    other = id

/-- The slot is with the baton, free for its station or held by it. -/
def Placed (baton : Baton (roster.cycle ring).length) : Prop :=
  (∀ stage < (roster.cycle ring).length,
    roster.served state ring slot stage = baton.served stage) ∧
  (roster.Vacant state ring slot baton.stage ∨
    ∃ id < program.threads, ∃ hold, roster.Occupied state ring slot baton.stage id hold)

structure Invariant (roster : Roster program) (state : State α β) : Prop where
  exited : state.exited = false
  index : ∀ id < program.threads, (state.locals id).index =
    (program.thread id).run.index program.nbuffer
      ((program.thread id).iterations (state.locals id))
  busy : ∀ id < program.threads, (state.locals id).phase ≠ .wait → program.Running state id
  placed : ∀ ring, roster.cycle ring ≠ [] → ∀ slot < program.nbuffer,
    ∃ baton, roster.Placed state ring slot baton

variable {roster} {state} {ring} {slot}

theorem served_congr {stage : Nat}
    (same : ∀ part, (program.thread (roster.visitor ring stage slot).1).releases
      (successor.locals (roster.visitor ring stage slot).1) part =
      (program.thread (roster.visitor ring stage slot).1).releases
        (state.locals (roster.visitor ring stage slot).1) part) :
    roster.served successor ring slot stage = roster.served state ring slot stage := by
  simp only [served, same]

theorem Placed.unchanged {baton : Baton (roster.cycle ring).length}
    (placed : roster.Placed state ring slot baton)
    (status : successor.access (ring, slot) = state.access (ring, slot))
    (served : ∀ stage < (roster.cycle ring).length,
      roster.served successor ring slot stage = roster.served state ring slot stage)
    (holds : ∀ other < program.threads, ∀ hold, program.Holds successor other hold (ring, slot) ↔
      program.Holds state other hold (ring, slot))
    (part : ∀ other < program.threads, ∀ hold, program.Holds state other hold (ring, slot) →
      (successor.locals other).hold = (state.locals other).hold) :
    roster.Placed successor ring slot baton := by
  obtain ⟨counts, owner⟩ := placed
  refine ⟨fun stage bound => (served stage bound).trans (counts stage bound), ?_⟩
  rcases owner with vacant | ⟨owner, ownerBound, hold, occupied⟩
  · left
    constructor
    · rw [status]
      exact vacant.status
    · intro other bound otherHold held
      exact vacant.nobody other bound otherHold ((holds other bound otherHold).mp held)
  · right
    refine ⟨owner, ownerBound, hold, ?_⟩
    constructor
    · exact (holds owner ownerBound hold).mpr occupied.holds
    · rw [part owner ownerBound hold occupied.holds]
      exact occupied.visitor
    · exact occupied.wait
    · rw [status]
      exact occupied.status
    · intro other bound otherHold held
      exact occupied.alone other bound otherHold ((holds other bound otherHold).mp held)

theorem Placed.elsewhere {baton : Baton (roster.cycle ring).length}
    (placed : roster.Placed state ring slot baton)
    (others : ∀ other, other ≠ id → successor.locals other = state.locals other)
    (status : successor.access (ring, slot) = state.access (ring, slot))
    (served : ∀ stage < (roster.cycle ring).length,
      roster.served successor ring slot stage = roster.served state ring slot stage)
    (before : ∀ hold, ¬program.Holds state id hold (ring, slot))
    (after : ∀ hold, ¬program.Holds successor id hold (ring, slot)) :
    roster.Placed successor ring slot baton := by
  apply placed.unchanged status served
  · intro other bound hold
    by_cases same : other = id
    · subst same
      exact iff_of_false (after hold) (before hold)
    · exact Program.holds_congr (others other same)
  · intro other bound hold held
    by_cases same : other = id
    · subst same
      exact (before hold held).elim
    · rw [others other same]

theorem visitor_current (slotBound : slot < program.nbuffer) {stage : Nat}
    (stageBound : stage < (roster.cycle ring).length)
    (visiting : roster.visitor ring stage slot = (id, (state.locals id).hold))
    (current : program.current state id = some hold) :
    hold.ring = ring ∧ (roster.cycle ring)[stage]? = some hold.waitStatus := by
  have status := List.getElem?_eq_getElem stageBound
  obtain ⟨_, served, found, ringEq, wait⟩ := roster.serves ring stage slot _ slotBound status
  rw [visiting] at found
  have same : served = hold := Option.some.inj (found.symm.trans (Program.current_some current).2)
  subst same
  exact ⟨ringEq, by rw [status, wait]⟩

theorem Invariant.current_slot (invariant : roster.Invariant state) (bound : id < program.threads) :
    (state.locals id).index.n =
      program.slot id ((program.thread id).iterations (state.locals id)) := by
  rw [Program.slot, Run.slot, ← invariant.index id bound]

theorem Invariant.slot_lt (invariant : roster.Invariant state) (bound : id < program.threads) :
    (state.locals id).index.n < program.nbuffer := by
  rw [invariant.current_slot bound]
  exact roster.slot id bound _

theorem Invariant.station (invariant : roster.Invariant state) (bound : id < program.threads)
    (current : program.current state id = some hold) :
    ∃ stage, (roster.cycle hold.ring)[stage]? = some hold.waitStatus ∧
      (roster.cycle hold.ring)[(stage + 1) % (roster.cycle hold.ring).length]? =
        some hold.setStatus ∧
      hold.state ∉ roster.cycle hold.ring ∧
      roster.visitor hold.ring stage (state.locals id).index.n = (id, (state.locals id).hold) := by
  obtain ⟨stage, wait, set, busy, visitor⟩ :=
    roster.station id bound _ hold (Program.current_some current).2
  exact ⟨stage, wait, set, busy, by rw [invariant.current_slot bound]; exact visitor _⟩

theorem Invariant.cycle_ne_nil (invariant : roster.Invariant state) (bound : id < program.threads)
    (current : program.current state id = some hold) : roster.cycle hold.ring ≠ [] := by
  obtain ⟨stage, wait, _⟩ := invariant.station bound current
  intro empty
  simp [empty] at wait

theorem Invariant.occupied (invariant : roster.Invariant state) (bound : id < program.threads)
    (held : program.Holds state id hold (ring, slot)) :
    ∃ baton : Baton (roster.cycle ring).length,
      (∀ stage < (roster.cycle ring).length,
        roster.served state ring slot stage = baton.served stage) ∧
      roster.Occupied state ring slot baton.stage id hold := by
  have ringEq : hold.ring = ring := congrArg Prod.fst held.place
  have slotEq : (state.locals id).index.n = slot := congrArg Prod.snd held.place
  subst ringEq
  have slotBound : slot < program.nbuffer := slotEq ▸ invariant.slot_lt bound
  obtain ⟨baton, counts, owner⟩ :=
    invariant.placed _ (invariant.cycle_ne_nil bound held.current) slot slotBound
  rcases owner with vacant | ⟨owner, ownerBound, other, occupied⟩
  · exact (vacant.nobody id bound hold held).elim
  · have same : id = owner := occupied.alone id bound hold held
    subst same
    have holdEq : other = hold := by
      have found := occupied.holds.current
      rw [held.current] at found
      exact (Option.some.inj found).symm
    subst holdEq
    exact ⟨baton, counts, occupied⟩

end Roster

end RockAMali
