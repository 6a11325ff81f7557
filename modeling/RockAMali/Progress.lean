import Mathlib.Algebra.Order.BigOperators.Group.Finset
import RockAMali.Rosters

/-!
When the threads of a program can get stuck. A thread that waits does so for one
that is behind it, where the threads follow one another in the same order through
each slot and count its laps alike: in `process.cpp` exactly when the number of
processing threads divides the ring size.
-/

namespace RockAMali

open Relay

def Phase.number : Phase → Nat
  | .wait => 0
  | .access => 1
  | .set => 2

section Remaining

variable {α β : Type*}

def Local.remaining (count holds : Nat) (own : Local β) : Nat :=
  3 * holds * (count - own.index.i) - (3 * own.hold + own.phase.number)

def Program.remaining (program : Program) (state : State α β) : Nat :=
  ∑ id ∈ Finset.range program.threads,
    (state.locals id).remaining program.count (program.thread id).iteration.length

variable {own : Local β} {count holds : Nat}

theorem remaining_room (running : own.index.i < count) (held : own.hold < holds) :
    3 * own.hold + 3 ≤ 3 * holds * (count - own.index.i) := by
  have lap : 3 * holds ≤ 3 * holds * (count - own.index.i) := Nat.le_mul_of_pos_right _ (by omega)
  omega

theorem Local.remaining_access (running : own.index.i < count) (held : own.hold < holds)
    (waiting : own.phase = .wait) :
    ({ own with phase := .access } : Local β).remaining count holds < own.remaining count holds := by
  have room := remaining_room running held
  simp only [Local.remaining, waiting, Phase.number]
  omega

theorem Local.remaining_set (running : own.index.i < count) (held : own.hold < holds)
    (accessing : own.phase = .access) (image : β) :
    ({ own with phase := .set, image := image } : Local β).remaining count holds <
      own.remaining count holds := by
  have room := remaining_room running held
  simp only [Local.remaining, accessing, Phase.number]
  omega

theorem Local.remaining_advance {thread : Thread} {nbuffer : Nat}
    (positive : 0 < thread.run.stride) (running : own.index.i < count)
    (held : own.hold < thread.iteration.length) (setting : own.phase = .set) :
    (own.advance nbuffer thread).remaining count thread.iteration.length <
      own.remaining count thread.iteration.length := by
  have room := remaining_room running held
  simp only [Local.advance]
  split
  · simp only [Local.remaining, setting, Phase.number]
    omega
  · have left : 3 * thread.iteration.length * (count - (own.index.i + thread.run.stride) + 1) ≤
        3 * thread.iteration.length * (count - own.index.i) := by
      apply Nat.mul_le_mul_left
      omega
    rw [Nat.mul_add, Nat.mul_one] at left
    simp only [Local.remaining, setting, Phase.number, Run.next]
    omega

variable {frame : Nat → α} {kernel : α → β} {program : Program} {state : State α β} {id : Nat}
  {roster : Roster program}

theorem Program.remaining_step (invariant : roster.Invariant state) (bound : id < program.threads)
    (running : program.Running state id) (free : ¬program.Waits state id) :
    program.remaining (program.step frame kernel state id) < program.remaining state := by
  obtain ⟨hold, current⟩ := Option.isSome_iff_exists.mp running
  obtain ⟨within, found⟩ := Program.current_some current
  have held := (List.getElem?_eq_some_iff.mp found).1
  have others (other : Nat) (different : other ≠ id) :
      (program.step frame kernel state id).locals other = state.locals other := by
    rcases program.step_cases frame kernel id invariant.exited with idle | ⟨_, _, step⟩
    · rw [idle]
    · rcases step with ⟨_, _, taken⟩ | ⟨_, taken⟩ | ⟨_, _, taken⟩ | ⟨_, _, taken⟩ <;>
        simp [taken, different, State.perform]
  have smaller : ((program.step frame kernel state id).locals id).remaining program.count
      (program.thread id).iteration.length <
        (state.locals id).remaining program.count (program.thread id).iteration.length := by
    simp only [Program.step, invariant.exited, current, Bool.false_eq_true, if_false]
    cases phase : (state.locals id).phase with
    | wait =>
        have status : state.access (state.place id hold) = hold.waitStatus := by
          by_contra other
          exact free ⟨hold, current, phase, other⟩
        simp only [State.acquire, status, waitForStatus_self, Function.update_self]
        exact Local.remaining_access within held phase
    | access =>
        simp only [State.perform, Function.update_self]
        exact Local.remaining_set within held phase _
    | set =>
        obtain ⟨_, _, occupied⟩ := invariant.occupied bound
          (⟨current, by simp [phase], rfl⟩ : program.Holds state id hold (state.place id hold))
        have status : state.access (state.place id hold) = hold.state := occupied.status
        simp only [Program.release, status, setStatus_self, Function.update_self]
        exact Local.remaining_advance (roster.stride id bound) within held phase
  apply Finset.sum_lt_sum
  · intro other _
    by_cases same : other = id
    · subst same
      exact Nat.le_of_lt smaller
    · rw [others other same]
  · exact ⟨id, Finset.mem_range.mpr bound, smaller⟩

def Program.Finished (program : Program) (state : State α β) : Prop :=
  ∀ id < program.threads, ¬program.Running state id

theorem Program.exists_free (alive : ¬program.Stuck state)
    (unfinished : ¬program.Finished state) :
    ∃ id < program.threads, program.Running state id ∧ ¬program.Waits state id := by
  by_contra none
  apply alive
  constructor
  · by_contra nobody
    exact unfinished fun id bound running => nobody ⟨id, bound, running⟩
  · intro id bound running
    by_contra free
    exact none ⟨id, bound, running, free⟩

theorem exists_finished (roster : Roster program)
    (alive : ∀ state, program.Reachable frame kernel state → ¬program.Stuck state)
    (reachable : program.Reachable frame kernel state) :
    ∃ last, program.Reachable frame kernel last ∧ program.Finished last := by
  apply Transition.Reachable.exists_final program.remaining _ reachable
  intro state reachable
  by_cases finished : program.Finished state
  · exact Or.inl finished
  · right
    obtain ⟨id, bound, running, free⟩ := Program.exists_free (alive state reachable) finished
    exact ⟨_, ⟨id, bound, rfl⟩,
      Program.remaining_step (roster.invariant_of_reachable reachable) bound running free⟩

end Remaining

structure Roster.Order {program : Program} (roster : Roster program) (turns : Nat)
    (turn : Nat → Nat → Nat) : Prop where
  within : ∀ id < program.threads, ∀ part < (program.thread id).iteration.length,
    turn id part < turns
  parts : ∀ id < program.threads, ∀ part < (program.thread id).iteration.length,
    ∀ earlier ≤ part, turn id earlier ≤ turn id part
  stages : ∀ ring slot stage earlier, slot < program.nbuffer →
    stage < (roster.cycle ring).length → earlier < stage →
    turn (roster.visitor ring earlier slot).1 (roster.visitor ring earlier slot).2 <
      turn (roster.visitor ring stage slot).1 (roster.visitor ring stage slot).2
  regular : ∀ id < program.threads, (program.thread id).run.Regular program.nbuffer
  offset : ∀ ring slot stage, slot < program.nbuffer → stage < (roster.cycle ring).length →
    slot % (program.thread (roster.visitor ring stage slot).1).run.stride =
      (program.thread (roster.visitor ring stage slot).1).run.start

namespace Roster

variable {α β : Type*} {frame : Nat → α} {kernel : α → β} {program : Program}
  {state : State α β} {id : Nat} {hold : Hold} {roster : Roster program} {turns : Nat}
  {turn : Nat → Nat → Nat}

theorem frameOf_regular (regular : (program.thread id).run.Regular program.nbuffer) (step : Nat) :
    program.frameOf id step = ((program.thread id).run.index program.nbuffer step).i := by
  have slots : program.slot id = (program.thread id).run.slot program.nbuffer := rfl
  rw [Program.frameOf, slots, regular.visits, regular.slot, Nat.mod_add_div]

theorem Invariant.label_regular (invariant : roster.Invariant state) (bound : id < program.threads)
    (regular : (program.thread id).run.Regular program.nbuffer) :
    (state.locals id).index.i = (state.locals id).index.n + program.nbuffer *
      visits (program.slot id) ((program.thread id).iterations (state.locals id))
        (state.locals id).index.n := by
  rw [← invariant.frameOf bound, frameOf_regular regular, ← invariant.index id bound]

theorem Invariant.baton_elsewhere (invariant : roster.Invariant state)
    (bound : id < program.threads) (current : program.current state id = some hold)
    (waiting : (state.locals id).phase = .wait)
    (vain : state.access (state.place id hold) ≠ hold.waitStatus) :
    ∃ (baton : Baton (roster.cycle hold.ring).length) (stage : Nat),
      (roster.cycle hold.ring)[stage]? = some hold.waitStatus ∧ stage ≠ baton.stage ∧
      roster.visitor hold.ring stage (state.locals id).index.n = (id, (state.locals id).hold) ∧
      baton.served stage =
        visits (program.slot id) ((program.thread id).iterations (state.locals id))
          (state.locals id).index.n ∧
      ∀ stage < (roster.cycle hold.ring).length,
        roster.served state hold.ring (state.locals id).index.n stage = baton.served stage := by
  obtain ⟨stage, wait, _, _, visitor⟩ := invariant.station bound current
  obtain ⟨baton, counts, owner⟩ := invariant.placed _ (invariant.cycle_ne_nil bound current) _
    (invariant.slot_lt bound)
  have own := counts stage (List.getElem?_eq_some_iff.mp wait).1
  simp only [served, visitor, Thread.releases, Nat.lt_irrefl, if_false, Nat.add_zero] at own
  refine ⟨baton, stage, wait, ?_, visitor, own.symm, counts⟩
  intro here
  rcases owner with vacant | ⟨owner, _, other, occupied⟩
  · have status := vacant.status
    rw [← here, wait] at status
    exact vain (Option.some.inj status).symm
  · have visiting := occupied.visitor
    rw [← here, visitor, Prod.mk.injEq] at visiting
    exact occupied.holds.phase (visiting.1 ▸ waiting)

/-- Threads in the order in which they are to finish: by frame, and for one frame by turn. -/
def rank (turns : Nat) (turn : Nat → Nat → Nat) (state : State α β) (id : Nat) : Nat :=
  turns * (state.locals id).index.i + turn id (state.locals id).hold

theorem Order.rank_lt (order : roster.Order turns turn) {other : Nat}
    (bound : other < program.threads)
    (running : program.Running state other)
    (earlier : (state.locals other).index.i < (state.locals id).index.i) :
    rank turns turn state other < rank turns turn state id := by
  obtain ⟨hold, current⟩ := Option.isSome_iff_exists.mp running
  have within := order.within other bound _
    (List.getElem?_eq_some_iff.mp (Program.current_some current).2).1
  have lap := Nat.mul_le_mul_left turns (Nat.succ_le_of_lt earlier)
  rw [Nat.mul_succ] at lap
  simp only [rank]
  omega

theorem Loops.running (loops : Loops program state) (bound : id < program.threads)
    (holds : (program.thread id).iteration ≠ [])
    (within : (state.locals id).index.i < program.count) : program.Running state id := by
  by_cases started : 0 < (state.locals id).hold
  · exact loops.middle id bound started
  · have first : (state.locals id).hold = 0 := by omega
    rw [Program.Running, Program.current, if_pos within, first,
      List.getElem?_eq_getElem (List.length_pos_iff.mpr holds), Option.isSome_some]

theorem Order.behind (order : roster.Order turns turn) (invariant : roster.Invariant state) {ring : Ring}
    {slot stage other part : Nat} (visitor : roster.visitor ring stage slot = (other, part))
    (bound : other < program.threads) (slotBound : slot < program.nbuffer)
    (stageBound : stage < (roster.cycle ring).length) :
    (state.locals other).index.i ≤ slot + program.nbuffer * roster.served state ring slot stage ∧
      ((state.locals other).index.i =
        slot + program.nbuffer * roster.served state ring slot stage →
          (state.locals other).hold ≤ part) := by
  have offset := order.offset ring slot stage slotBound stageBound
  rw [visitor] at offset
  have served : roster.served state ring slot stage = visits (program.slot other)
      ((program.thread other).releases (state.locals other) part) slot := by
    simp only [Roster.served, visitor]
  have released := (order.regular other bound).label_le slotBound offset (Nat.le_refl _) served.symm
  rw [invariant.index other bound]
  have iterations : ((program.thread other).run.index program.nbuffer
      ((program.thread other).releases (state.locals other) part)).i =
      ((program.thread other).run.index program.nbuffer
        ((program.thread other).iterations (state.locals other))).i +
        (program.thread other).run.stride * if part < (state.locals other).hold then 1 else 0 := by
    rw [Run.label, Run.label, Thread.releases, Nat.mul_add, Nat.add_assoc]
  rw [iterations] at released
  refine ⟨Nat.le_trans (Nat.le_add_right _ _) released, ?_⟩
  intro same
  by_contra past
  have stride := roster.stride other bound
  rw [if_pos (by omega), same] at released
  omega

theorem Order.waits (order : roster.Order turns turn) (invariant : roster.Invariant state)
    (loops : Loops program state) (bound : id < program.threads)
    (waits : program.Waits state id) :
    ∃ other < program.threads, program.Running state other ∧
      rank turns turn state other < rank turns turn state id := by
  obtain ⟨hold, current, waiting, vain⟩ := waits
  obtain ⟨baton, stage, wait, different, visitor, own, counts⟩ :=
    invariant.baton_elsewhere bound current waiting vain
  have slotBound := invariant.slot_lt bound
  have label := invariant.label_regular bound (order.regular id bound)
  have within := (Program.current_some current).1
  rw [← own] at label
  obtain ⟨otherBound, _, found, _⟩ := roster.serves hold.ring baton.stage
    (state.locals id).index.n _ slotBound (List.getElem?_eq_getElem baton.stage.isLt)
  have follows (earlier : (baton.stage : Nat) < stage) := order.stages hold.ring
    (state.locals id).index.n stage baton.stage slotBound
    (List.getElem?_eq_some_iff.mp wait).1 earlier
  rw [visitor] at follows
  generalize visiting : roster.visitor hold.ring baton.stage (state.locals id).index.n = pair
    at otherBound found follows
  obtain ⟨other, part⟩ := pair
  obtain ⟨behind, same⟩ := order.behind invariant visiting otherBound slotBound baton.stage.isLt
  rw [counts baton.stage baton.stage.isLt, Baton.served_stage] at behind same
  have partBound := (List.getElem?_eq_some_iff.mp found).1
  have running (before : (state.locals other).index.i ≤ (state.locals id).index.i) :
      program.Running state other :=
    loops.running otherBound (List.ne_nil_of_length_pos (Nat.zero_lt_of_lt partBound))
      (Nat.lt_of_le_of_lt before within)
  rcases Nat.lt_or_gt_of_ne different with before | after
  · -- the slot is still with a later station for the frame one lap earlier
    rw [Baton.served_of_lt baton before, Nat.mul_succ] at label
    have earlier : (state.locals other).index.i < (state.locals id).index.i := by omega
    have unfinished := running (Nat.le_of_lt earlier)
    exact ⟨other, otherBound, unfinished, order.rank_lt otherBound unfinished earlier⟩
  · -- the slot is still with an earlier station for the same frame
    rw [Baton.served_of_ge baton (Nat.le_of_lt after)] at label
    have unfinished := running (by omega)
    refine ⟨other, otherBound, unfinished, ?_⟩
    by_cases earlier : (state.locals other).index.i < (state.locals id).index.i
    · exact order.rank_lt otherBound unfinished earlier
    · have frame : (state.locals other).index.i = (state.locals id).index.i := by omega
      have held := order.parts other otherBound part partBound _ (same (by omega))
      have before : turn other part < turn id (state.locals id).hold := follows after
      simp only [rank, frame]
      omega

theorem Order.not_stuck (order : roster.Order turns turn)
    (reachable : program.Reachable frame kernel state) : ¬program.Stuck state := by
  have invariant := roster.invariant_of_reachable reachable
  have loops := loops_of_reachable roster reachable
  rintro ⟨⟨id, bound, running⟩, waiting⟩
  have behind : ∀ agent, agent < program.threads ∧ program.Running state agent →
      program.Waits state agent → ∃ other, (other < program.threads ∧ program.Running state other) ∧
        rank turns turn state other < rank turns turn state agent := by
    intro agent unfinished blocked
    obtain ⟨other, otherBound, otherRunning, smaller⟩ :=
      order.waits invariant loops unfinished.1 blocked
    exact ⟨other, ⟨otherBound, otherRunning⟩, smaller⟩
  obtain ⟨other, ⟨otherBound, otherRunning⟩, free⟩ :=
    Transition.exists_enabled (rank turns turn state) behind ⟨bound, running⟩
  exact free (waiting other otherBound otherRunning)

end Roster

/-! With a stride that does not divide the ring size, the last processing thread
comes back to its first slot for a frame before the generator does. -/

section Laps

variable {nbuffer stride : Nat}

theorem last_slot (positive : 0 < stride) {step : Nat} (within : step < nbuffer / stride) :
    (Run.processor stride (stride - 1)).slot nbuffer step = stride - 1 + stride * step := by
  induction step with
  | zero => rfl
  | succ step ih =>
      have room : stride * (step + 2) ≤ nbuffer :=
        Nat.le_trans (Nat.mul_le_mul_left stride (by omega)) (Nat.mul_div_le nbuffer stride)
      rw [Nat.mul_add] at room
      rw [Run.slot_succ, ih (by omega), Run.nextSlot, if_neg (by omega), Nat.mul_succ]
      omega

theorem last_wraps (positive : 0 < stride) (fits : stride ≤ nbuffer) :
    (Run.processor stride (stride - 1)).slot nbuffer (nbuffer / stride) = stride - 1 := by
  obtain ⟨laps, laps_eq⟩ := Nat.exists_eq_succ_of_ne_zero (Nat.div_pos fits positive).ne'
  have value := Nat.div_add_mod nbuffer stride
  have rest := Nat.mod_lt nbuffer positive
  rw [laps_eq, Nat.mul_succ] at value
  rw [laps_eq, Nat.succ_eq_add_one, Run.slot_succ, last_slot positive (by omega), Run.nextSlot,
    if_pos (by omega)]

theorem last_visits (positive : 0 < stride) (fits : stride ≤ nbuffer) {steps : Nat}
    (many : nbuffer / stride < steps) :
    2 ≤ visits ((Run.processor stride (stride - 1)).slot nbuffer) steps (stride - 1) := by
  have first := visits_lt ((Run.processor stride (stride - 1)).slot nbuffer)
    (Nat.div_pos fits positive)
  have second := visits_lt ((Run.processor stride (stride - 1)).slot nbuffer) many
  rw [last_wraps positive fits] at second
  rw [Run.slot_zero, Run.start] at first
  omega

theorem second_fill {slot steps : Nat} (slotBound : slot < nbuffer)
    (twice : 2 ≤ visits (Run.buffer.slot nbuffer) steps slot) : slot + nbuffer < steps := by
  have positive : 0 < nbuffer := by omega
  have slots : Run.buffer.slot nbuffer = fun visit => visit % nbuffer := by
    funext visit
    exact Run.slot_buffer positive visit
  by_contra few
  have before := visits_mono (Run.buffer.slot nbuffer) slot (Nat.le_of_not_lt few)
  have once := visits_mod positive (slot + nbuffer)
  rw [Nat.add_mod_right, Nat.mod_eq_of_lt slotBound, Nat.add_div_right _ positive,
    Nat.div_eq_of_lt slotBound] at once
  rw [slots] at before twice
  omega

end Laps

/-- Once the last processing thread has come back to its first slot, the
generator has gone a whole lap further, for which there are frames only where
the processing threads divide the ring. -/
theorem Roster.dvd_of_finished {α β : Type*} {frame : Nat → α} {kernel : α → β} {program : Program}
    {state : State α β} {id : Nat} (roster : Roster program) (fits : id + 1 ≤ program.nbuffer)
    (count : program.count = (program.nbuffer / (id + 1) + 1) * (id + 1))
    (reachable : program.Reachable frame kernel state) (finished : program.Finished state)
    {reader : Nat} (fillerBound : 0 < program.threads)
    (fillerRun : (program.thread 0).run = .buffer) (filler : roster.visitor .images 0 id = (0, 0))
    (readerBound : reader < program.threads)
    (readerRun : (program.thread reader).run = .processor (id + 1) id)
    (readerHolds : (program.thread reader).iteration ≠ [])
    (visitor : roster.visitor .images 1 id = (reader, 0))
    (stages : 1 < (roster.cycle .images).length) : id + 1 ∣ program.nbuffer := by
  have positive : 0 < id + 1 := Nat.succ_pos id
  have total : (id + 1) * (program.nbuffer / (id + 1)) + (id + 1) = program.count := by
    rw [count, Nat.add_mul (program.nbuffer / (id + 1)) 1, Nat.one_mul, Nat.mul_comm (id + 1)]
  have invariant := roster.invariant_of_reachable reachable
  have loops := loops_of_reachable roster reachable
  have ended : program.count ≤ (state.locals reader).index.i := by
    by_contra within
    exact finished reader readerBound
      (loops.running readerBound readerHolds (Nat.lt_of_not_le within))
  have many : program.nbuffer / (id + 1) <
      (program.thread reader).iterations (state.locals reader) := by
    rw [invariant.index reader readerBound, Run.label, readerRun, Run.start, Run.stride] at ended
    by_contra few
    have most := Nat.mul_le_mul_left (id + 1) (Nat.le_of_not_lt few)
    omega
  have read : 2 ≤ roster.served state .images id 1 := by
    have slots : program.slot reader = (Run.processor (id + 1) id).slot program.nbuffer := by
      funext step
      rw [Program.slot, readerRun]
    have twice := last_visits positive fits many
    simp only [Nat.add_sub_cancel] at twice
    simp only [Roster.served, visitor, slots]
    apply Nat.le_trans twice (visits_mono _ _ _)
    simp only [Thread.releases]
    omega
  obtain ⟨baton, counts, _⟩ := invariant.placed .images
    (List.ne_nil_of_length_pos (Nat.zero_lt_of_lt stages)) id (Nat.lt_of_succ_le fits)
  have order := baton.served_antitone (Nat.zero_le 1)
  rw [← counts 1 stages, ← counts 0 (Nat.zero_lt_of_lt stages)] at order
  have filledTwice : 2 ≤ visits (Run.buffer.slot program.nbuffer)
      ((program.thread 0).releases (state.locals 0) 0) id := by
    have slots : program.slot 0 = Run.buffer.slot program.nbuffer := by
      funext step
      rw [Program.slot, fillerRun]
    have served := Nat.le_trans read order
    simp only [Roster.served, filler, slots] at served
    exact served
  have filled := second_fill (Nat.lt_of_succ_le fits) filledTwice
  have released : (program.thread 0).releases (state.locals 0) 0 ≤ program.count :=
    Nat.le_trans Thread.releases_le_accesses
      (loops.accesses_le_count invariant fillerBound fillerRun)
  have below := Nat.mul_div_le program.nbuffer (id + 1)
  exact Dvd.intro (program.nbuffer / (id + 1)) (by omega)

section Process

variable {α β : Type*} {frame : Nat → α} {kernel : α → β} {nbuffer count stride : Nat}

theorem process_regular (positive : 0 < nbuffer) (divides : stride ∣ nbuffer) {id : Nat}
    (bound : id < stride + 2) :
    ((process nbuffer count (stride + 2)).thread id).run.Regular nbuffer := by
  rcases id with _ | _ | id
  · exact ⟨positive, Nat.one_pos, Nat.one_dvd nbuffer⟩
  · exact ⟨positive, Nat.one_pos, Nat.one_dvd nbuffer⟩
  · exact ⟨positive, (by omega : id < stride), divides⟩

def processTurn : Nat → Nat → Nat
  | 0, _ => 0
  | 1, _ => 3
  | _, part => 1 + part

theorem process_order (positive : 0 < stride) (fits : stride ≤ nbuffer)
    (divides : stride ∣ nbuffer) :
    (processRoster nbuffer count stride positive fits).Order 4 processTurn where
  within := by
    rintro (_ | _ | id) _ part within
    · exact Nat.zero_lt_succ _
    · exact Nat.lt_succ_self _
    · simp only [process, DataProcessor.iteration, List.length_cons, List.length_nil] at within
      simp only [processTurn]
      omega
  parts := by
    rintro (_ | _ | id) _ part _ earlier order
    · exact Nat.le_refl _
    · exact Nat.le_refl _
    · exact Nat.add_le_add_left order 1
  stages := by
    rintro (_ | _) slot (_ | _ | stage) (_ | _ | earlier) slotBound stageBound order <;>
      simp only [processRoster, processTurn, List.length_cons, List.length_nil]
        at stageBound ⊢ <;> omega
  regular := fun _ bound => process_regular (Nat.lt_of_lt_of_le positive fits) divides bound
  offset := by
    rintro (_ | _) slot (_ | _ | stage) _ _ <;> first | exact Nat.mod_one slot | rfl

theorem process_not_stuck (positive : 0 < stride) (fits : stride ≤ nbuffer)
    (divides : stride ∣ nbuffer) {state : State α β}
    (reachable : (process nbuffer count (stride + 2)).Reachable frame kernel state) :
    ¬(process nbuffer count (stride + 2)).Stuck state :=
  (process_order positive fits divides).not_stuck reachable

theorem process_reads (positive : 0 < stride) (fits : stride ≤ nbuffer)
    (divides : stride ∣ nbuffer) {state : State α β}
    (reachable : (process nbuffer count (stride + 2)).Reachable frame kernel state) {slot i : Nat}
    {x : α} (read : (i, x) ∈ state.data.reads slot) : x = frame i := by
  have laws : (processRoster nbuffer count stride positive fits).Dataflow statusFilled :=
    processRoster_dataflow positive fits
  obtain ⟨_, flow⟩ := Roster.flow_of_reachable _ laws reachable
  obtain ⟨id, bound, _, _, step, _, _, entry⟩ := flow.reads slot (i, x) read
  have regular : ((process nbuffer count (stride + 2)).thread id).run.Regular nbuffer :=
    process_regular (by omega) divides bound
  obtain ⟨label, value⟩ := Prod.mk.inj entry
  rw [value, label, Roster.frameOf_regular regular]

theorem dvd_of_not_stuck (positive : 0 < stride) (fits : stride ≤ nbuffer)
    (alive : ∀ count, ∀ state : State α β,
      (process nbuffer count (stride + 2)).Reachable frame kernel state →
        ¬(process nbuffer count (stride + 2)).Stuck state) : stride ∣ nbuffer := by
  obtain ⟨last, rfl⟩ : ∃ last, stride = last + 1 := ⟨stride - 1, by omega⟩
  -- one more frame for the last processing thread than its slots take in one lap
  let count := (nbuffer / (last + 1) + 1) * (last + 1)
  let roster := processRoster nbuffer count (last + 1) positive fits
  obtain ⟨state, reachable, finished⟩ := exists_finished roster (alive count)
    (.start (Program.start_initial (frame 0) (kernel (frame 0))))
  have visitor : roster.visitor .images 1 last = (last + 2, 0) :=
    Prod.ext (congrArg (· + 2) (Nat.mod_eq_of_lt (Nat.lt_succ_self last))) rfl
  exact Roster.dvd_of_finished roster fits rfl reachable finished (Nat.succ_pos _) rfl rfl
    (Nat.lt_succ_self _) rfl (List.cons_ne_nil _ _) visitor (by decide : 1 < 2)

/-- The pipeline never gets stuck and each iteration works on its own frame,
exactly when the number of processing threads divides the ring size. -/
theorem process_stuck_iff (positive : 0 < stride) (fits : stride ≤ nbuffer) :
    stride ∣ nbuffer ↔ ∀ count, ∀ state : State α β,
      (process nbuffer count (stride + 2)).Reachable frame kernel state →
        ¬(process nbuffer count (stride + 2)).Stuck state ∧
        ∀ slot i x, (i, x) ∈ state.data.reads slot → x = frame i := by
  constructor
  · intro divides count state reachable
    refine ⟨process_not_stuck positive fits divides reachable, ?_⟩
    intro slot i x read
    exact process_reads positive fits divides reachable read
  · intro alive
    exact dvd_of_not_stuck positive fits fun count state reachable => (alive count state reachable).1

theorem process_stuck_two_of_three :
    ¬∀ count, ∀ state : State Nat Nat, (process 3 count 4).Reachable id id state →
      ¬(process 3 count 4).Stuck state ∧
      ∀ slot i x, (i, x) ∈ state.data.reads slot → x = id i := by
  intro alive
  have divides : 2 ∣ 3 := (process_stuck_iff (by decide) (by decide)).mpr alive
  exact absurd divides (by decide)

end Process

end RockAMali
