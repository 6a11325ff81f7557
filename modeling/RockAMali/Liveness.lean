import RockAMali.Library.Fairness
import RockAMali.Pipelines
import RockAMali.Progress

/-!
The multi-thread programs under fair schedulers. A program finishes under all of
them exactly when no order of steps gets it stuck.
-/

namespace RockAMali

open Relay

section Fair

variable {α β : Type*} {frame : Nat → α} {kernel : α → β} {program : Program}
  {state initial : State α β} {id : Nat} {roster : Roster program} {schedule : Nat → Nat}

theorem Program.step_idle (exited : state.exited = false)
    (idle : ¬program.Running state id ∨ program.Waits state id) :
    program.step frame kernel state id = state := by
  simp only [Program.step, exited, Bool.false_eq_true, if_false]
  rcases idle with finished | ⟨hold, current, waiting, vain⟩
  · rw [Program.Running, Bool.not_eq_true, Option.isSome_eq_false_iff,
      Option.isNone_iff_eq_none] at finished
    simp only [finished]
  · simp only [current, waiting, State.acquire, waitForStatus_of_ne vain]

theorem Program.Reachable.exists_run (reachable : program.Reachable frame kernel state) :
    ∃ (initial : State α β) (turns : List Nat), program.Initial initial ∧
      (∀ id ∈ turns, id < program.threads) ∧
      turns.foldl (program.step frame kernel) initial = state := by
  induction reachable with
  | start first => exact ⟨_, [], first, fun _ member => absurd member List.not_mem_nil, rfl⟩
  | step _ next ih =>
      obtain ⟨initial, turns, first, members, ran⟩ := ih
      obtain ⟨id, bound, rfl⟩ := next
      refine ⟨initial, turns ++ [id], first, ?_, ?_⟩
      · intro other member
        rcases List.mem_append.mp member with earlier | last
        · exact members other earlier
        · rw [List.mem_singleton.mp last]
          exact bound
      · rw [List.foldl_append, List.foldl_cons, List.foldl_nil, ran]

def Program.Finishes (program : Program) (frame : Nat → α) (kernel : α → β)
    (schedule : Nat → Nat) (initial : State α β) : Prop :=
  ∃ time, program.Finished
      (Transition.execution (program.step frame kernel) schedule initial time) ∧
    ∀ later, time ≤ later →
      Transition.execution (program.step frame kernel) schedule initial later =
        Transition.execution (program.step frame kernel) schedule initial time

def Program.Completes (program : Program) (frame : Nat → α) (kernel : α → β)
    (schedule : Nat → Nat) (initial : State α β) (complete : Data α β → Prop) : Prop :=
  ∃ time, ∀ later, time ≤ later →
    program.Finished (Transition.execution (program.step frame kernel) schedule initial later) ∧
      complete (Transition.execution (program.step frame kernel) schedule initial later).data

theorem Program.execution_reachable (first : program.Initial initial)
    (fair : Transition.Fair (· < program.threads) schedule) (time : Nat) :
    program.Reachable frame kernel
      (Transition.execution (program.step frame kernel) schedule initial time) := by
  refine Transition.execution_invariant fair (.start first) ?_ time
  intro state id reachable bound
  exact .step reachable ⟨id, bound, rfl⟩

theorem Program.finishes_of_not_stuck (roster : Roster program)
    (alive : ∀ state, program.Reachable frame kernel state → ¬program.Stuck state)
    (first : program.Initial initial)
    (fair : Transition.Fair (· < program.threads) schedule) :
    program.Finishes frame kernel schedule initial := by
  have start : program.Reachable frame kernel initial := .start first
  apply fair.ends_of_idle program.remaining start
  · intro state id reachable bound
    exact .step reachable ⟨id, bound, rfl⟩
  · intro state id reachable bound
    have invariant := roster.invariant_of_reachable reachable
    by_cases idle : ¬program.Running state id ∨ program.Waits state id
    · exact Or.inl (Program.step_idle invariant.exited idle)
    · push Not at idle
      exact Or.inr (Program.remaining_step invariant bound idle.1 idle.2)
  · intro state reachable
    have invariant := roster.invariant_of_reachable reachable
    by_cases finished : program.Finished state
    · exact Or.inl finished
    · right
      obtain ⟨id, bound, running, free⟩ := Program.exists_free (alive state reachable) finished
      exact ⟨id, bound, Program.remaining_step invariant bound running free⟩
  · intro state reachable finished id bound
    exact Program.step_idle (roster.invariant_of_reachable reachable).exited
      (Or.inl (finished id bound))

theorem Program.not_stuck_of_finishes (roster : Roster program)
    (finishes : ∀ (initial : State α β) schedule, program.Initial initial →
      Transition.Fair (· < program.threads) schedule →
        program.Finishes frame kernel schedule initial)
    (reachable : program.Reachable frame kernel state) : ¬program.Stuck state := by
  rintro ⟨⟨id, bound, running⟩, waiting⟩
  have exited := (roster.invariant_of_reachable reachable).exited
  obtain ⟨initial, turns, first, members, ran⟩ := Program.Reachable.exists_run reachable
  -- the turns to the stuck state, and then each thread in its turn again and again
  have fair := (Transition.fair_roundRobin (Nat.zero_lt_of_lt bound)).beginWith members
  obtain ⟨time, finished, stays⟩ := finishes initial _ first fair
  have here : Transition.execution (program.step frame kernel)
      (Transition.beginWith turns (· % program.threads)) initial turns.length = state :=
    (Transition.execution_beginWith turns).trans ran
  have idle : ∀ other < program.threads, program.step frame kernel state other = state := by
    intro other otherBound
    by_cases otherRunning : program.Running state other
    · exact Program.step_idle exited (Or.inr (waiting other otherBound otherRunning))
    · exact Program.step_idle exited (Or.inl otherRunning)
  rw [← here] at idle
  have later := Transition.execution_stays idle fair (Nat.le_max_right time _)
  rw [stays _ (Nat.le_max_left time _), here] at later
  rw [later] at finished
  exact finished id bound running

theorem Program.finishes_iff (roster : Roster program) :
    (∀ (initial : State α β) schedule, program.Initial initial →
      Transition.Fair (· < program.threads) schedule →
        program.Finishes frame kernel schedule initial) ↔
      ∀ state : State α β, program.Reachable frame kernel state → ¬program.Stuck state := by
  constructor
  · intro finishes state reachable
    exact Program.not_stuck_of_finishes roster finishes reachable
  · intro alive initial schedule first fair
    exact Program.finishes_of_not_stuck roster alive first fair

theorem programs_finish_iff (known : MultiThread program) :
    (∀ (initial : State α β) schedule, program.Initial initial →
      Transition.Fair (· < program.threads) schedule →
        program.Finishes frame kernel schedule initial) ↔
      ∀ state : State α β, program.Reachable frame kernel state → ¬program.Stuck state := by
  obtain ⟨roster⟩ := known.exists_roster
  exact Program.finishes_iff roster

theorem Program.Finishes.completes {complete : Data α β → Prop}
    (finishes : program.Finishes frame kernel schedule initial)
    (first : program.Initial initial) (fair : Transition.Fair (· < program.threads) schedule)
    (stored : ∀ state : State α β, program.Reachable frame kernel state →
      program.Finished state → complete state.data) :
    program.Completes frame kernel schedule initial complete := by
  obtain ⟨time, finished, stays⟩ := finishes
  refine ⟨time, ?_⟩
  intro later order
  rw [stays later order]
  exact ⟨finished, stored _ (Program.execution_reachable first fair time) finished⟩

theorem Program.Completes.finishes {complete : Data α β → Prop} (roster : Roster program)
    (completes : program.Completes frame kernel schedule initial complete)
    (first : program.Initial initial) (fair : Transition.Fair (· < program.threads) schedule) :
    program.Finishes frame kernel schedule initial := by
  obtain ⟨time, ended⟩ := completes
  have finished := (ended time (Nat.le_refl time)).1
  refine ⟨time, finished, ?_⟩
  intro later order
  refine Transition.execution_stays ?_ fair order
  intro id bound
  have reachable : program.Reachable frame kernel
      (Transition.execution (program.step frame kernel) schedule initial time) :=
    Program.execution_reachable first fair time
  exact Program.step_idle (roster.invariant_of_reachable reachable).exited
    (Or.inl (finished id bound))

end Fair

theorem programs_finish_process :
    (process 4 5 4).Finishes id (· + 7) (· % 4) ((process 4 5 4).start 0 0) :=
  (programs_finish_iff (.process (by decide : 0 < 2) (by decide))).mpr
    (fun _ reachable => process_not_stuck (by decide) (by decide) (by decide) reachable)
    _ _ (Program.start_initial 0 0) (Transition.fair_roundRobin (by decide))

namespace Roster

variable {α β : Type*} {program : Program} {state : State α β} {id : Nat} {roster : Roster program}

theorem Loops.accesses_finished (loops : Loops program state) (invariant : roster.Invariant state)
    (bound : id < program.threads) (run : (program.thread id).run = .buffer)
    (holds : (program.thread id).iteration ≠ []) (finished : ¬program.Running state id) :
    (program.thread id).accesses (state.locals id) 0 = program.count := by
  apply Nat.le_antisymm (loops.accesses_le_count invariant bound run)
  have ended : program.count ≤ (state.locals id).index.i := by
    by_contra within
    exact finished (loops.running bound holds (Nat.lt_of_not_le within))
  rw [invariant.label_buffer bound run] at ended
  exact Nat.le_trans ended (Nat.le_add_right _ _)

end Roster

section Programs

variable {α β : Type*} {frame : Nat → α} {kernel : α → β} {nbuffer count stride tn : Nat}

def receiveTurn : Nat → Nat → Nat
  | 0, _ => 0
  | 1, _ => 2
  | 2, _ => 3
  | _, part => 1 + part

theorem receive_order (positive : 0 < stride) (fits : stride ≤ nbuffer)
    (divides : stride ∣ nbuffer) :
    (receiveRoster nbuffer count stride positive fits).Order 4 receiveTurn where
  within := by
    rintro (_ | _ | _ | id) _ part within
    · exact Nat.zero_lt_succ _
    · exact (by decide : 2 < 4)
    · exact Nat.lt_succ_self _
    · simp only [receive, DataProcessor.iteration, List.length_cons, List.length_nil] at within
      simp only [receiveTurn]
      omega
  parts := by
    rintro (_ | _ | _ | id) _ part _ earlier order
    · exact Nat.le_refl _
    · exact Nat.le_refl _
    · exact Nat.le_refl _
    · exact Nat.add_le_add_left order 1
  stages := by
    rintro (_ | _) slot (_ | _ | _ | stage) (_ | _ | _ | earlier) slotBound stageBound order <;>
      simp only [receiveRoster, receiveTurn, List.length_cons, List.length_nil]
        at stageBound ⊢ <;> omega
  regular := by
    rintro (_ | _ | _ | id) bound
    · exact ⟨by simp only [receive]; omega, Nat.one_pos, Nat.one_dvd nbuffer⟩
    · exact ⟨by simp only [receive]; omega, Nat.one_pos, Nat.one_dvd nbuffer⟩
    · exact ⟨by simp only [receive]; omega, Nat.one_pos, Nat.one_dvd nbuffer⟩
    · simp only [receive] at bound
      exact ⟨by simp only [receive]; omega, (by omega : id < stride), divides⟩
  offset := by
    rintro (_ | _) slot (_ | _ | _ | stage) _ _ <;> first | exact Nat.mod_one slot | rfl

theorem receiveOnly_order (positive : 0 < nbuffer) :
    (receiveOnlyRoster nbuffer count positive).Order 2 fun id _ => min id 1 where
  within := by
    intro id _ part _
    omega
  parts := by
    intro id _ part _ earlier _
    exact Nat.le_refl _
  stages := by
    rintro (_ | _) slot (_ | _ | stage) (_ | _ | earlier) slotBound stageBound order <;>
      simp only [receiveOnlyRoster, List.length_cons, List.length_nil] at stageBound ⊢ <;> omega
  regular := by
    rintro (_ | _ | id) bound
    · exact ⟨positive, Nat.one_pos, Nat.one_dvd nbuffer⟩
    · exact ⟨positive, Nat.one_pos, Nat.one_dvd nbuffer⟩
    · simp only [receive] at bound
      omega
  offset := by
    rintro (_ | _) slot (_ | _ | stage) _ _ <;> exact Nat.mod_one slot

theorem send_order (positive : 0 < nbuffer) (enough : 2 ≤ tn) :
    (sendRoster nbuffer count tn positive enough).Order 2 fun id _ => min id 1 where
  within := by
    intro id _ part _
    omega
  parts := by
    intro id _ part _ earlier _
    exact Nat.le_refl _
  stages := by
    rintro (_ | _) slot (_ | _ | stage) (_ | _ | earlier) slotBound stageBound order <;>
      simp only [sendRoster, List.length_cons, List.length_nil] at stageBound ⊢ <;> omega
  regular := by
    rintro (_ | _ | id) _ <;> exact ⟨positive, Nat.one_pos, Nat.one_dvd nbuffer⟩
  offset := by
    rintro (_ | _) slot (_ | _ | stage) _ _ <;> exact Nat.mod_one slot

theorem receive_dvd_of_not_stuck (positive : 0 < stride) (fits : stride ≤ nbuffer)
    (alive : ∀ count, ∀ state : State α β,
      (receive nbuffer count (stride + 3)).Reachable frame kernel state →
        ¬(receive nbuffer count (stride + 3)).Stuck state) : stride ∣ nbuffer := by
  obtain ⟨last, rfl⟩ : ∃ last, stride = last + 1 := ⟨stride - 1, by omega⟩
  -- one more frame for the last processing thread than its slots take in one lap
  let count := (nbuffer / (last + 1) + 1) * (last + 1)
  let roster := receiveRoster nbuffer count (last + 1) positive fits
  obtain ⟨state, reachable, finished⟩ := exists_finished roster (alive count)
    (.start (Program.start_initial (frame 0) (kernel (frame 0))))
  have visitor : roster.visitor .images 1 last = (last + 3, 0) :=
    Prod.ext (congrArg (· + 3) (Nat.mod_eq_of_lt (Nat.lt_succ_self last))) rfl
  exact Roster.dvd_of_finished roster fits rfl reachable finished (Nat.succ_pos _) rfl rfl
    (Nat.lt_succ_self _) rfl (List.cons_ne_nil _ _) visitor (by decide : 1 < 3)

theorem process_finished (positive : 0 < stride) (fits : stride ≤ nbuffer) {state : State α β}
    (reachable : (process nbuffer count (stride + 2)).Reachable frame kernel state)
    (finished : (process nbuffer count (stride + 2)).Finished state) :
    state.data.storedR = (List.range count).map fun i => kernel (frame i) := by
  let roster := processRoster nbuffer count stride positive fits
  have laws : roster.Dataflow statusFilled := processRoster_dataflow positive fits
  obtain ⟨invariant, flow⟩ := Roster.flow_of_reachable _ laws reachable
  have loops := Roster.loops_of_reachable roster reachable
  have storing : 1 < (process nbuffer count (stride + 2)).threads := by
    simp only [process]
    omega
  rw [flow.storedR 1 storing _ rfl rfl rfl, loops.accesses_finished invariant storing rfl
    (List.cons_ne_nil _ _) (finished 1 storing)]
  rfl

theorem receive_finished (positive : 0 < stride) (fits : stride ≤ nbuffer) {state : State α β}
    (reachable : (receive nbuffer count (stride + 3)).Reachable frame kernel state)
    (finished : (receive nbuffer count (stride + 3)).Finished state) :
    state.data.stored = (List.range count).map frame ∧
      state.data.storedR = (List.range count).map fun i => kernel (frame i) := by
  let roster := receiveRoster nbuffer count stride positive fits
  have laws : roster.Dataflow statusReceived := receiveRoster_dataflow positive fits
  obtain ⟨invariant, flow⟩ := Roster.flow_of_reachable _ laws reachable
  have loops := Roster.loops_of_reachable roster reachable
  have storing : 2 < (receive nbuffer count (stride + 3)).threads := by
    simp only [receive]
    omega
  have raw : 1 < (receive nbuffer count (stride + 3)).threads := Nat.lt_of_succ_lt storing
  constructor
  · rw [flow.stored 1 raw _ rfl rfl rfl, loops.accesses_finished invariant raw rfl
      (List.cons_ne_nil _ _) (finished 1 raw)]
    rfl
  · rw [flow.storedR 2 storing _ rfl rfl rfl, loops.accesses_finished invariant storing rfl
      (List.cons_ne_nil _ _) (finished 2 storing)]
    rfl

theorem receiveOnly_finished (positive : 0 < nbuffer) {state : State α β}
    (reachable : (receive nbuffer count 2).Reachable frame kernel state)
    (finished : (receive nbuffer count 2).Finished state) :
    state.data.stored = (List.range count).map frame := by
  let roster := receiveOnlyRoster nbuffer count positive
  have laws : roster.Dataflow statusReceived := receiveOnlyRoster_dataflow positive
  obtain ⟨invariant, flow⟩ := Roster.flow_of_reachable _ laws reachable
  have loops := Roster.loops_of_reachable roster reachable
  have storing : 1 < (receive nbuffer count 2).threads := Nat.one_lt_two
  rw [flow.stored 1 storing _ rfl rfl rfl, loops.accesses_finished invariant storing rfl
    (List.cons_ne_nil _ _) (finished 1 storing)]
  rfl

theorem send_finished (positive : 0 < nbuffer) (enough : 2 ≤ tn) {state : State α β}
    (reachable : (send nbuffer count tn).Reachable frame kernel state)
    (finished : (send nbuffer count tn).Finished state) :
    state.data.sent = (List.range count).map frame := by
  let roster := sendRoster nbuffer count tn positive enough
  have laws : roster.Dataflow statusFilled := sendRoster_dataflow positive enough
  obtain ⟨invariant, flow⟩ := Roster.flow_of_reachable _ laws reachable
  have loops := Roster.loops_of_reachable roster reachable
  have sending : 1 < (send nbuffer count tn).threads := enough
  rw [flow.sent 1 sending _ rfl rfl, loops.accesses_finished invariant sending rfl
    (List.cons_ne_nil _ _) (finished 1 sending)]
  rfl

/-- `process.cpp` processes and stores every frame under every fair scheduler
exactly when the number of processing threads divides the ring size. -/
theorem process_completes_iff (positive : 0 < stride) (fits : stride ≤ nbuffer) :
    stride ∣ nbuffer ↔ ∀ count (initial : State α β) schedule,
      (process nbuffer count (stride + 2)).Initial initial →
      Transition.Fair (· < stride + 2) schedule →
      (process nbuffer count (stride + 2)).Completes frame kernel schedule initial fun data =>
        data.storedR = (List.range count).map fun i => kernel (frame i) := by
  constructor
  · intro divides count initial schedule first fair
    let roster := processRoster nbuffer count stride positive fits
    have finishes : (process nbuffer count (stride + 2)).Finishes frame kernel schedule initial :=
      Program.finishes_of_not_stuck roster
        (fun _ reachable => process_not_stuck positive fits divides reachable) first fair
    exact finishes.completes first fair fun state reachable finished =>
      process_finished positive fits reachable finished
  · intro completes
    have alive : ∀ count, ∀ state : State α β,
        (process nbuffer count (stride + 2)).Reachable frame kernel state →
          ¬(process nbuffer count (stride + 2)).Stuck state := by
      intro count state reachable
      let roster := processRoster nbuffer count stride positive fits
      refine Program.not_stuck_of_finishes roster ?_ reachable
      intro initial schedule first fair
      exact (completes count initial schedule first fair).finishes roster first fair
    exact dvd_of_not_stuck positive fits alive

theorem process_completes_roundRobin :
    (process 4 5 4).Completes id (· + 7) (· % 4) ((process 4 5 4).start 0 0) fun data =>
      data.storedR = (List.range 5).map fun i => i + 7 :=
  (process_completes_iff (by decide) (by decide)).mp (by decide : 2 ∣ 4) 5 _ _
    (Program.start_initial 0 0) (Transition.fair_roundRobin (by decide))

theorem receive_completes_iff (positive : 0 < stride) (fits : stride ≤ nbuffer) :
    stride ∣ nbuffer ↔ ∀ count (initial : State α β) schedule,
      (receive nbuffer count (stride + 3)).Initial initial →
      Transition.Fair (· < stride + 3) schedule →
      (receive nbuffer count (stride + 3)).Completes frame kernel schedule initial fun data =>
        data.stored = (List.range count).map frame ∧
          data.storedR = (List.range count).map fun i => kernel (frame i) := by
  constructor
  · intro divides count initial schedule first fair
    let roster := receiveRoster nbuffer count stride positive fits
    have finishes : (receive nbuffer count (stride + 3)).Finishes frame kernel schedule initial :=
      Program.finishes_of_not_stuck roster
        (fun _ reachable => (receive_order positive fits divides).not_stuck reachable) first fair
    exact finishes.completes first fair fun state reachable finished =>
      receive_finished positive fits reachable finished
  · intro completes
    have alive : ∀ count, ∀ state : State α β,
        (receive nbuffer count (stride + 3)).Reachable frame kernel state →
          ¬(receive nbuffer count (stride + 3)).Stuck state := by
      intro count state reachable
      let roster := receiveRoster nbuffer count stride positive fits
      refine Program.not_stuck_of_finishes roster ?_ reachable
      intro initial schedule first fair
      exact (completes count initial schedule first fair).finishes roster first fair
    exact receive_dvd_of_not_stuck positive fits alive

theorem receive_completes_roundRobin :
    (receive 2 5 5).Completes id (· + 7) (· % 5) ((receive 2 5 5).start 0 0) fun data =>
      data.stored = (List.range 5).map id ∧ data.storedR = (List.range 5).map fun i => i + 7 :=
  (receive_completes_iff (by decide) (by decide)).mp (by decide : 2 ∣ 2) 5 _ _
    (Program.start_initial 0 0) (Transition.fair_roundRobin (by decide))

theorem transfers_complete (positive : 0 < nbuffer) (enough : 2 ≤ tn) :
    (∀ (initial : State α β) schedule, (receive nbuffer count 2).Initial initial →
      Transition.Fair (· < 2) schedule →
      (receive nbuffer count 2).Completes frame kernel schedule initial fun data =>
        data.stored = (List.range count).map frame) ∧
    ∀ (initial : State α β) schedule, (send nbuffer count tn).Initial initial →
      Transition.Fair (· < tn) schedule →
      (send nbuffer count tn).Completes frame kernel schedule initial fun data =>
        data.sent = (List.range count).map frame := by
  constructor
  · intro initial schedule first fair
    let roster := receiveOnlyRoster nbuffer count positive
    have finishes : (receive nbuffer count 2).Finishes frame kernel schedule initial :=
      Program.finishes_of_not_stuck roster
        (fun _ reachable => (receiveOnly_order positive).not_stuck reachable) first fair
    exact finishes.completes first fair fun state reachable finished =>
      receiveOnly_finished positive reachable finished
  · intro initial schedule first fair
    let roster := sendRoster nbuffer count tn positive enough
    have finishes : (send nbuffer count tn).Finishes frame kernel schedule initial :=
      Program.finishes_of_not_stuck roster
        (fun _ reachable => (send_order positive enough).not_stuck reachable) first fair
    exact finishes.completes first fair fun state reachable finished =>
      send_finished positive enough reachable finished

theorem transfers_complete_roundRobin :
    (receive 3 5 2).Completes id id (· % 2) ((receive 3 5 2).start 0 0) (fun data =>
      data.stored = (List.range 5).map id) ∧
    (send 3 5 4).Completes id id (· % 4) ((send 3 5 4).start 0 0) fun data =>
      data.sent = (List.range 5).map id := by
  have positive : 0 < 3 := by decide
  have enough : 2 ≤ 4 := by decide
  constructor
  · exact (transfers_complete positive enough).1 _ _ (Program.start_initial 0 0)
      (Transition.fair_roundRobin (by decide))
  · exact (transfers_complete positive enough).2 _ _ (Program.start_initial 0 0)
      (Transition.fair_roundRobin (by decide))

end Programs

end RockAMali
