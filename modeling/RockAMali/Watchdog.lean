import Mathlib.Data.List.Count
import RockAMali.Library.Transition
import RockAMali.UdpReceive

/-!
The watchdog and the receive thread of `udp_receive.cpp` over a socket. A step
is a locked section with the statements after it, or a way out of the receive
loop.
-/

namespace RockAMali

inductive ReceivePhase
  | receiving
  | left
  | finished
deriving DecidableEq

inductive WatchdogPhase
  | counting
  | checking
  | finished
deriving DecidableEq

/-- What the receive thread writes after its loop, with the number of frames
behind the printed count and `mean_rate`. -/
structure Summary where
  expectedFrame : Int
  receivedFrame : Int
  count : Nat
deriving DecidableEq

structure Verdict where
  testStatus : Bool
  expectedFrame : Int
  receivedFrame : Int
deriving DecidableEq

structure Threads where
  received : Nat
  currentI : Nat
  done : Bool
  i : Nat
  receive : ReceivePhase
  watchdog : WatchdogPhase
  records : List (Int × Int)
  summary : Option Summary
  verdict : Option Verdict
deriving DecidableEq

def Threads.initial : Threads := ⟨0, 0, false, 0, .receiving, .counting, [], none, none⟩

inductive Section
  | frame
  | timeout
  | complete
  | finish
  | interval
  | check
deriving DecidableEq

namespace Threads

def leave (maxIter : UInt64) (state : Threads) : Threads :=
  { state with
    receive := .left
    summary := some ⟨narrow32 maxIter.toNat, narrow32 state.i, maxIter.toNat⟩ }

/-- A record for each frame of the interval, with its rate left out. -/
def plateau (state : Threads) : List (Int × Int) :=
  if 0 < state.currentI then
    List.replicate state.received (narrow32 state.currentI, narrow32 state.received)
  else []

def judge (maxIter : UInt64) (i : Nat) : Verdict :=
  ⟨i == (maxIter - 1).toNat, narrow32 maxIter.toNat, narrow32 i⟩

theorem judge_receivedFrame (maxIter : UInt64) (i : Nat) :
    (judge maxIter i).receivedFrame = narrow32 i := by
  simp only [judge]

def step (maxIter : UInt64) (state : Threads) : Section → Option Threads
  | .frame =>
      if state.receive = .receiving ∧ state.i < maxIter.toNat then
        some { state with
          received := (state.received + 1) % 2 ^ 32
          currentI := state.i
          i := state.i + 1 }
      else none
  -- the first frame is waited for without a timeout
  | .timeout =>
      if state.receive = .receiving ∧ state.i < maxIter.toNat ∧ 0 < state.i then
        some (state.leave maxIter)
      else none
  | .complete =>
      if state.receive = .receiving ∧ maxIter.toNat ≤ state.i then some (state.leave maxIter)
      else none
  | .finish =>
      if state.receive = .left then some { state with receive := .finished, done := true } else none
  | .interval =>
      if state.watchdog = .counting then
        some { state with
          received := 0
          watchdog := .checking
          records := state.records ++ state.plateau }
      else none
  | .check =>
      if state.watchdog = .checking then
        if state.done then
          some { state with watchdog := .finished, verdict := some (judge maxIter state.currentI) }
        else some { state with watchdog := .counting }
      else none

def run (maxIter : UInt64) : List Section → Option Threads :=
  Transition.run (step maxIter) initial

structure Consistent (maxIter : UInt64) (past : List Section) (state : Threads) : Prop where
  frames : state.i = past.count .frame
  bounded : state.i ≤ maxIter.toNat
  current : state.currentI = state.i - 1
  done : state.done = true ↔ state.receive = .finished
  stopped : .timeout ∈ past ↔ state.receive ≠ .receiving ∧ state.i < maxIter.toNat
  left : state.receive ≠ .receiving → (0 < maxIter.toNat → 0 < state.i) ∧
    state.summary = some ⟨narrow32 maxIter.toNat, narrow32 state.i, maxIter.toNat⟩
  watched : state.watchdog = .finished →
    state.done = true ∧ state.verdict = some (judge maxIter state.currentI)

theorem consistent_initial (maxIter : UInt64) : Consistent maxIter [] initial := by
  constructor <;> simp [initial]

variable {maxIter : UInt64} {past actions : List Section} {current next final : Threads}

theorem step_frame : current.step maxIter .frame = some next ↔
    (current.receive = .receiving ∧ current.i < maxIter.toNat) ∧
      next = { current with
        received := (current.received + 1) % 2 ^ 32, currentI := current.i, i := current.i + 1 } := by
  simp [step, eq_comm]

theorem step_timeout : current.step maxIter .timeout = some next ↔
    (current.receive = .receiving ∧ current.i < maxIter.toNat ∧ 0 < current.i) ∧
      next = current.leave maxIter := by
  simp [step, eq_comm]

theorem step_complete : current.step maxIter .complete = some next ↔
    (current.receive = .receiving ∧ maxIter.toNat ≤ current.i) ∧ next = current.leave maxIter := by
  simp [step, eq_comm]

theorem step_finish : current.step maxIter .finish = some next ↔
    current.receive = .left ∧ next = { current with receive := .finished, done := true } := by
  simp [step, eq_comm]

theorem step_interval : current.step maxIter .interval = some next ↔
    current.watchdog = .counting ∧ next = { current with
      received := 0, watchdog := .checking, records := current.records ++ current.plateau } := by
  simp [step, eq_comm]

theorem step_check : current.step maxIter .check = some next ↔
    current.watchdog = .checking ∧
      (current.done = true ∧
          next = { current with
            watchdog := .finished, verdict := some (judge maxIter current.currentI) } ∨
        current.done = false ∧ next = { current with watchdog := .counting }) := by
  cases flag : current.done <;> simp [step, flag, eq_comm]

theorem Consistent.gone (consistent : Consistent maxIter past current)
    (finished : current.watchdog = .finished) : current.receive ≠ .receiving := by
  rw [consistent.done.mp (consistent.watched finished).1]
  nofun

theorem Consistent.step (consistent : Consistent maxIter past current)
    {label : Section} (taken : current.step maxIter label = some next) :
    Consistent maxIter (past ++ [label]) next := by
  have ⟨frames, bounded, index, done, stopped, left, watched⟩ := consistent
  cases label with
  | frame =>
      obtain ⟨⟨receiving, inside⟩, rfl⟩ := step_frame.mp taken
      refine ⟨by simp [frames], inside, rfl, done, by simp [stopped, receiving], ?_, ?_⟩
      · exact fun elsewhere => absurd receiving elsewhere
      · exact fun finished => absurd receiving (consistent.gone finished)
  | timeout =>
      obtain ⟨⟨receiving, inside, started⟩, rfl⟩ := step_timeout.mp taken
      exact ⟨by simpa [leave] using frames, bounded, index, by simp [leave, done, receiving],
        by simp [leave, inside], fun _ => ⟨fun _ => started, rfl⟩, watched⟩
  | complete =>
      obtain ⟨⟨receiving, all⟩, rfl⟩ := step_complete.mp taken
      refine ⟨by simpa [leave] using frames, bounded, index, by simp [leave, done, receiving], ?_,
        fun _ => ⟨fun wanted => Nat.lt_of_lt_of_le wanted all, rfl⟩, watched⟩
      simp [leave, stopped, receiving, all]
  | finish =>
      obtain ⟨receiving, rfl⟩ := step_finish.mp taken
      exact ⟨by simpa using frames, bounded, index, by simp, by simpa [receiving] using stopped,
        fun _ => left (by simp [receiving]), fun finished => ⟨rfl, (watched finished).2⟩⟩
  | interval =>
      obtain ⟨counting, rfl⟩ := step_interval.mp taken
      exact ⟨by simpa using frames, bounded, index, done, by simpa using stopped, left, nofun⟩
  | check =>
      obtain ⟨checking, ⟨flag, rfl⟩ | ⟨flag, rfl⟩⟩ := step_check.mp taken
      · exact ⟨by simpa using frames, bounded, index, done, by simpa using stopped, left,
          fun _ => ⟨flag, rfl⟩⟩
      · exact ⟨by simpa using frames, bounded, index, done, by simpa using stopped, left, nofun⟩

theorem run_consistent (ran : run maxIter actions = some final) :
    Consistent maxIter actions final :=
  Transition.run_rule (Consistent maxIter) (consistent_initial maxIter)
    (fun _ _ _ _ _ consistent taken => consistent.step taken) ran

def twoFrames : List Section := [.frame, .frame, .interval, .complete, .finish, .check]

theorem run_twoFrames : run 2 twoFrames =
    some ⟨0, 1, true, 2, .finished, .finished, [(1, 2), (1, 2)], some ⟨2, 2, 2⟩,
      some ⟨true, 2, 1⟩⟩ := by
  decide +kernel

theorem last_index (positive : 0 < maxIter) : (maxIter - 1).toNat = maxIter.toNat - 1 := by
  have wanted : (1 : UInt64) ≤ maxIter := by
    rw [UInt64.le_iff_toNat_le]
    exact UInt64.lt_iff_toNat_lt.mp positive
  rw [UInt64.toNat_sub_of_le _ _ wanted, UInt64.toNat_one]

theorem test_status_iff (positive : 0 < maxIter) (ran : run maxIter actions = some final)
    (finished : final.watchdog = .finished) :
    ∃ verdict, final.verdict = some verdict ∧
      (verdict.testStatus = true ↔ actions.count .frame = maxIter.toNat) ∧
      (verdict.testStatus = true ↔ .timeout ∉ actions) := by
  have consistent := run_consistent ran
  have gone := consistent.gone finished
  have started := (consistent.left gone).1 (UInt64.lt_iff_toNat_lt.mp positive)
  have bounded := consistent.bounded
  have status : (judge maxIter final.currentI).testStatus = true ↔ final.i = maxIter.toNat := by
    rw [judge, beq_iff_eq, consistent.current, last_index positive]
    omega
  refine ⟨judge maxIter final.currentI, (consistent.watched finished).2, ?_, ?_⟩
  · rw [status, consistent.frames]
  · rw [status, consistent.stopped]
    simp only [gone, ne_eq, not_false_eq_true, true_and]
    omega

theorem test_status_twoFrames :
    ∃ verdict, some (⟨true, 2, 1⟩ : Verdict) = some verdict ∧
      (verdict.testStatus = true ↔ twoFrames.count .frame = (2 : UInt64).toNat) ∧
      (verdict.testStatus = true ↔ .timeout ∉ twoFrames) :=
  test_status_iff (by decide) run_twoFrames rfl

def SameRun (frames : Nat) (state : Threads) : Prop :=
  ∃ summary verdict, state.summary = some summary ∧ state.verdict = some verdict ∧
    summary.receivedFrame = frames ∧ verdict.receivedFrame = frames ∧ summary.count = frames

theorem narrow32_le (value : Nat) : narrow32 value ≤ value := by
  rw [narrow32, Int.bmod_def]
  split <;> omega

theorem received_frame_never (positive : 0 < maxIter) (ran : run maxIter actions = some final)
    (finished : final.watchdog = .finished) :
    ¬SameRun (actions.count .frame) final ∧
      final.summary = some ⟨narrow32 maxIter.toNat, narrow32 (actions.count .frame), maxIter.toNat⟩ ∧
      final.verdict = some (judge maxIter (actions.count .frame - 1)) := by
  have consistent := run_consistent ran
  have verdict := (consistent.watched finished).2
  obtain ⟨some_frame, summary⟩ := consistent.left (consistent.gone finished)
  have started := some_frame (UInt64.lt_iff_toNat_lt.mp positive)
  rw [consistent.frames] at started summary
  rw [consistent.current, consistent.frames] at verdict
  refine ⟨?_, summary, verdict⟩
  rintro ⟨_, written, _, attributes, _, same, _⟩
  obtain rfl : judge maxIter (actions.count .frame - 1) = written :=
    Option.some.inj (verdict.symm.trans attributes)
  rw [judge_receivedFrame] at same
  have small := narrow32_le (actions.count .frame - 1)
  omega

theorem received_frame_twoFrames :
    ∃ final, run 2 twoFrames = some final ∧ ¬SameRun (twoFrames.count .frame) final :=
  ⟨_, run_twoFrames, (received_frame_never (by decide) run_twoFrames rfl).1⟩

theorem received_frame_differs :
    ∃ final, run 2 twoFrames = some final ∧ final.receive = .finished ∧
      final.watchdog = .finished ∧ ¬SameRun (twoFrames.count .frame) final := by
  refine ⟨_, run_twoFrames, rfl, rfl, ?_⟩
  rintro ⟨_, written, _, attributes, _, same, _⟩
  obtain rfl := Option.some.inj attributes
  exact absurd same (by decide)

def pending (state : Threads) : Nat := if state.watchdog = .finished then 0 else state.received

def lost (state : Threads) : Section → Nat
  | .interval => if state.currentI = 0 then state.received else 0
  | .check => if state.done then state.received else 0
  | _ => 0

def Meets (state : Threads) (label : Section) : Prop :=
  state.lost label = 0 ∧ (label = .frame → state.received + 1 < 2 ^ 31)

instance (state : Threads) (label : Section) : Decidable (Meets state label) :=
  inferInstanceAs (Decidable (_ ∧ _))

theorem step_accounting (consistent : Consistent maxIter past current) {label : Section}
    (room : label = .frame → current.received + 1 < 2 ^ 32)
    (taken : current.step maxIter label = some next) :
    next.records.length + next.pending + current.lost label + current.i =
      current.records.length + current.pending + next.i := by
  cases label with
  | frame =>
      obtain ⟨⟨receiving, _⟩, rfl⟩ := step_frame.mp taken
      have running : current.watchdog ≠ .finished :=
        fun finished => consistent.gone finished receiving
      simp only [pending, lost, running, if_false, Nat.mod_eq_of_lt (room rfl)]
      omega
  | timeout =>
      obtain ⟨_, rfl⟩ := step_timeout.mp taken
      rfl
  | complete =>
      obtain ⟨_, rfl⟩ := step_complete.mp taken
      rfl
  | finish =>
      obtain ⟨_, rfl⟩ := step_finish.mp taken
      rfl
  | interval =>
      obtain ⟨counting, rfl⟩ := step_interval.mp taken
      by_cases first : current.currentI = 0
      · simp [pending, lost, plateau, counting, first]
      · simp [pending, lost, plateau, counting, first, Nat.pos_of_ne_zero first]
  | check =>
      obtain ⟨checking, ⟨flag, rfl⟩ | ⟨flag, rfl⟩⟩ := step_check.mp taken
      · simp [pending, lost, checking, flag]
      · simp [pending, lost, checking, flag]

theorem logged_of_along (ran : run maxIter actions = some final)
    (along : Transition.Along (step maxIter) Meets initial actions) :
    final.records.length + final.pending = final.i := by
  refine (Transition.run_rule (fun past current => Consistent maxIter past current ∧
    (Transition.Along (step maxIter) Meets initial past →
      current.records.length + current.pending = current.i)) ?_ ?_ ran).2 along
  · exact ⟨consistent_initial maxIter, fun _ => rfl⟩
  · rintro past label current next before ⟨consistent, tally⟩ taken
    refine ⟨consistent.step taken, fun along => ?_⟩
    obtain ⟨earlier, now⟩ := Transition.along_append_singleton.mp along
    obtain ⟨kept, room⟩ := now current before
    have step := step_accounting consistent (fun frame => by have := room frame; omega) taken
    have total := tally earlier
    omega

theorem along_iff_logged (small : maxIter.toNat < 2 ^ 31) (ran : run maxIter actions = some final) :
    Transition.Along (step maxIter) Meets initial actions ↔
      final.records.length + final.pending = final.i := by
  suffices tally : Consistent maxIter actions final ∧
      final.records.length + final.pending ≤ final.i ∧
      (Transition.Along (step maxIter) Meets initial actions ↔
        final.records.length + final.pending = final.i) from tally.2.2
  refine Transition.run_rule (fun past current => Consistent maxIter past current ∧
    current.records.length + current.pending ≤ current.i ∧
    (Transition.Along (step maxIter) Meets initial past ↔
      current.records.length + current.pending = current.i)) ?_ ?_ ran
  · exact ⟨consistent_initial maxIter, Nat.le_refl 0, by simp [Transition.Along, initial, pending]⟩
  · rintro past label current next before ⟨consistent, bound, tally⟩ taken
    have room : label = .frame → current.received + 1 < 2 ^ 31 := by
      rintro rfl
      obtain ⟨⟨receiving, inside⟩, _⟩ := step_frame.mp taken
      have running : current.watchdog ≠ .finished :=
        fun finished => consistent.gone finished receiving
      rw [pending, if_neg running] at bound
      omega
    have step := step_accounting consistent (fun frame => by have := room frame; omega) taken
    have now : (∀ state, Transition.run (Threads.step maxIter) initial past = some state →
        Meets state label) ↔ current.lost label = 0 := by
      constructor
      · exact fun meets => (meets current before).1
      · intro kept state same
        obtain rfl : current = state := Option.some.inj (before.symm.trans same)
        exact ⟨kept, room⟩
    refine ⟨consistent.step taken, by omega, ?_⟩
    rw [Transition.along_append_singleton, tally, now]
    omega

theorem rate_log_along (ran : run maxIter actions = some final)
    (finished : final.watchdog = .finished) :
    (Transition.Along (step maxIter) Meets initial actions →
        final.records.length = actions.count .frame) ∧
      (maxIter.toNat < 2 ^ 31 → final.records.length = actions.count .frame →
        Transition.Along (step maxIter) Meets initial actions) := by
  have frames := (run_consistent ran).frames
  have none : final.pending = 0 := if_pos finished
  constructor
  · intro along
    have tally := logged_of_along ran along
    omega
  · intro small all
    rw [along_iff_logged small ran]
    omega

theorem rate_log_twoFrames :
    ∃ final, run 2 twoFrames = some final ∧ final.records.length = twoFrames.count .frame ∧
      Transition.Along (step 2) Meets initial twoFrames :=
  ⟨_, run_twoFrames, (rate_log_along run_twoFrames rfl).1 (by decide),
    (rate_log_along run_twoFrames rfl).2 (by decide) rfl⟩

theorem rate_log_loses :
    (∃ final, run 1 [.frame, .interval, .complete, .finish, .check] = some final ∧
      final.receive = .finished ∧ final.watchdog = .finished ∧ final.i = 1 ∧
        final.records.length = 0) ∧
    ∃ final, run 3 [.frame, .frame, .interval, .frame, .complete, .finish, .check] = some final ∧
      final.receive = .finished ∧ final.watchdog = .finished ∧ final.i = 3 ∧
        final.records.length = 2 :=
  ⟨⟨_, rfl, rfl, rfl, rfl, rfl⟩, ⟨_, rfl, rfl, rfl, rfl, rfl⟩⟩

end Threads

end RockAMali
