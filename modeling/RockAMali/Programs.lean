import Mathlib.Logic.Function.Basic
import RockAMali.Library.Transition
import RockAMali.ThreadLock
import RockAMali.DataBuffer

/-!
The threads of `process.cpp`, `receive.cpp` and `send.cpp`, and the steps of a
whole program. A step is one locked status check, one data access or one locked
status update of one thread.
-/

namespace RockAMali

/-! A `Hold` is a `wait_for_status`, the data access that follows it and the
matching `set_status`. The ring `images` has the statuses `access` and the ring
`results` the statuses `accessR`, each with a lock of its own. -/

inductive Ring
  | images
  | results
deriving DecidableEq

inductive Action
  | fill
  | kernel
  | copy
  | store
  | send
deriving DecidableEq

structure Hold where
  ring : Ring
  waitStatus : Taccess
  state : Taccess
  setStatus : Taccess
  action : Action
deriving DecidableEq

def DataGenerator.iteration (waitStatus setStatus : Taccess) : List Hold :=
  [⟨.images, waitStatus, stateFilling, setStatus, .fill⟩]

def DataProcessor.iteration (waitStatus setStatus waitStatusR setStatusR : Taccess) : List Hold :=
  [⟨.images, waitStatus, stateProcessing, setStatus, .kernel⟩,
    ⟨.results, waitStatusR, stateProcessing, setStatusR, .copy⟩]

def DataStore.iteration (ring : Ring) (waitStatus setStatus : Taccess) : List Hold :=
  [⟨ring, waitStatus, stateStoring, setStatus, .store⟩]

def DataReceive.iteration : List Hold :=
  [⟨.images, statusFree, stateReceiving, statusReceived, .fill⟩]

def DataSend.iteration : List Hold :=
  [⟨.images, statusFilled, stateSending, statusFree, .send⟩]

/-! The parallel sections on `tn` threads; `thread` is the `switch(id)`. -/

structure Thread where
  run : Run
  iteration : List Hold

structure Program where
  threads : Nat
  nbuffer : Nat
  count : Nat
  thread : Nat → Thread

def process (nbuffer count tn : Nat) : Program where
  threads := tn
  nbuffer := nbuffer
  count := count
  thread
    | 0 => ⟨.buffer, DataGenerator.iteration statusFree statusFilled⟩
    | 1 => ⟨.buffer, DataStore.iteration .results statusFilled statusFree⟩
    | id => ⟨.processor (tn - 2) (id - 2),
        DataProcessor.iteration statusFilled statusFree statusFree statusFilled⟩

def receive (nbuffer count tn : Nat) : Program where
  threads := tn
  nbuffer := nbuffer
  count := count
  thread
    | 0 => ⟨.buffer, DataReceive.iteration⟩
    | 1 => ⟨.buffer, DataStore.iteration .images
        (if tn = 2 then statusFilled else statusProcessed) statusFree⟩
    | 2 => ⟨.buffer, DataStore.iteration .results statusFilled statusFree⟩
    | id => ⟨.processor (tn - 3) (id - 3),
        DataProcessor.iteration statusReceived statusProcessed statusFree statusFilled⟩

def send (nbuffer count tn : Nat) : Program where
  threads := tn
  nbuffer := nbuffer
  count := count
  thread
    | 0 => ⟨.buffer, DataGenerator.iteration statusFree statusFilled⟩
    | 1 => ⟨.buffer, DataSend.iteration⟩
    | _ => ⟨.buffer, []⟩

/-! The state of a run: each thread is before the wait, the data access or the
status update of one of its holds, `image` being the member of `CDataProcessor`;
`reads` are the frames the kernels have read of each slot, with the label of the
iteration that did, and `stored`, `storedR` and `sent` the images written or sent. -/

inductive Phase
  | wait
  | access
  | set
deriving DecidableEq

structure Local (β : Type*) where
  index : Index
  hold : Nat
  phase : Phase
  image : β

structure Data (α β : Type*) where
  images : Nat → α
  results : Nat → β
  reads : Nat → List (Nat × α)
  stored : List α
  storedR : List β
  sent : List α

structure State (α β : Type*) where
  access : Ring × Nat → Taccess
  data : Data α β
  locals : Nat → Local β
  exited : Bool

section Semantics

variable {α β : Type*} (frame : Nat → α) (kernel : α → β)

/-! `frame i` is what the generator or the receiver has for iteration `i`. -/

def Hold.perform (hold : Hold) (index : Index) (data : Data α β) (image : β) : Data α β × β :=
  match hold.action, hold.ring with
  | .fill, _ =>
      ({ data with images := Function.update data.images index.n (frame index.i) }, image)
  | .kernel, _ =>
      ({ data with
          reads := Function.update data.reads index.n
            (data.reads index.n ++ [(index.i, data.images index.n)]) },
        kernel (data.images index.n))
  | .copy, _ => ({ data with results := Function.update data.results index.n image }, image)
  | .store, .images => ({ data with stored := data.stored ++ [data.images index.n] }, image)
  | .store, .results => ({ data with storedR := data.storedR ++ [data.results index.n] }, image)
  | .send, _ => ({ data with sent := data.sent ++ [data.images index.n] }, image)

def Local.advance (nbuffer : Nat) (thread : Thread) (own : Local β) : Local β :=
  if own.hold + 1 < thread.iteration.length then
    { own with hold := own.hold + 1, phase := .wait }
  else { own with index := thread.run.next nbuffer own.index, hold := 0, phase := .wait }

variable (program : Program) (state : State α β) (id : Nat)

def Program.current : Option Hold :=
  if (state.locals id).index.i < program.count then
    (program.thread id).iteration[(state.locals id).hold]?
  else none

def State.place (hold : Hold) : Ring × Nat := (hold.ring, (state.locals id).index.n)

def State.acquire (hold : Hold) : State α β :=
  match waitForStatus (state.access (state.place id hold)) hold.waitStatus hold.state with
  | none => state
  | some status =>
      { state with
        access := Function.update state.access (state.place id hold) status
        locals := Function.update state.locals id { state.locals id with phase := .access } }

def State.perform (hold : Hold) : State α β :=
  let own := state.locals id
  let outcome := hold.perform frame kernel own.index state.data own.image
  { state with
    data := outcome.1
    locals := Function.update state.locals id { own with phase := .set, image := outcome.2 } }

def Program.release (hold : Hold) : State α β :=
  match setStatus (state.access (state.place id hold)) hold.state hold.setStatus with
  | none => { state with exited := true }
  | some status =>
      { state with
        access := Function.update state.access (state.place id hold) status
        locals := Function.update state.locals id
          ((state.locals id).advance program.nbuffer (program.thread id)) }

def Program.step : State α β :=
  if state.exited then state
  else
    match program.current state id with
    | none => state
    | some hold =>
        match (state.locals id).phase with
        | .wait => state.acquire id hold
        | .access => state.perform frame kernel id hold
        | .set => program.release state id hold

/-! A run starts with free statuses and nothing stored, whatever the images
hold, and any of the threads takes the next step. -/

structure Program.Initial : Prop where
  free : ∀ place, state.access place = statusFree
  reads : ∀ slot, state.data.reads slot = []
  stored : state.data.stored = []
  storedR : state.data.storedR = []
  sent : state.data.sent = []
  index : ∀ id, (state.locals id).index = (program.thread id).run.first
  hold : ∀ id, (state.locals id).hold = 0
  phase : ∀ id, (state.locals id).phase = .wait
  exited : state.exited = false

def Program.start (image : α) (result : β) : State α β where
  access _ := statusFree
  data := ⟨fun _ => image, fun _ => result, fun _ => [], [], [], []⟩
  locals id := ⟨(program.thread id).run.first, 0, .wait, result⟩
  exited := false

def Program.Next (successor : State α β) : Prop :=
  ∃ id < program.threads, successor = program.step frame kernel state id

def Program.Reachable : Prop :=
  Transition.Reachable program.Initial (program.Next frame kernel) state

def Program.run : List Nat → State α β → State α β
  | [], state => state
  | id :: schedule, state => Program.run schedule (program.step frame kernel state id)

def Program.Running : Prop := (program.current state id).isSome = true

instance : Decidable (program.Running state id) :=
  inferInstanceAs (Decidable ((program.current state id).isSome = true))

/-- The thread is between a successful `wait_for_status` and the matching
`set_status` on a place. -/
structure Program.Holds (hold : Hold) (place : Ring × Nat) : Prop where
  current : program.current state id = some hold
  phase : (state.locals id).phase ≠ .wait
  place : state.place id hold = place

def Program.Waits : Prop :=
  ∃ hold, program.current state id = some hold ∧ (state.locals id).phase = .wait ∧
    state.access (state.place id hold) ≠ hold.waitStatus

/-- Some thread has not finished and every such thread waits in vain. -/
def Program.Stuck : Prop :=
  (∃ id < program.threads, program.Running state id) ∧
    ∀ id < program.threads, program.Running state id → program.Waits state id

end Semantics

section Steps

variable {α β : Type*} {frame : Nat → α} {kernel : α → β} {program : Program}
  {state : State α β} {id : Nat}

theorem Program.start_initial (image : α) (result : β) :
    program.Initial (program.start image result) := by
  constructor <;> intros <;> rfl

theorem Program.run_reachable {schedule : List Nat}
    (within : ∀ id ∈ schedule, id < program.threads)
    (reachable : program.Reachable frame kernel state) :
    program.Reachable frame kernel (program.run frame kernel schedule state) := by
  induction schedule generalizing state with
  | nil => exact reachable
  | cons id schedule ih =>
      apply ih
      · intro other member
        exact within other (List.mem_cons_of_mem _ member)
      · exact .step reachable ⟨id, within id List.mem_cons_self, rfl⟩

theorem Program.step_cases (program : Program) (frame : Nat → α) (kernel : α → β) (id : Nat)
    (running : state.exited = false) :
    program.step frame kernel state id = state ∨
    ∃ hold, program.current state id = some hold ∧
      ((state.locals id).phase = .wait ∧ state.access (state.place id hold) = hold.waitStatus ∧
          program.step frame kernel state id =
            { state with
              access := Function.update state.access (state.place id hold) hold.state
              locals := Function.update state.locals id
                { state.locals id with phase := .access } } ∨
        (state.locals id).phase = .access ∧
          program.step frame kernel state id = state.perform frame kernel id hold ∨
        (state.locals id).phase = .set ∧ state.access (state.place id hold) = hold.state ∧
          program.step frame kernel state id =
            { state with
              access := Function.update state.access (state.place id hold) hold.setStatus
              locals := Function.update state.locals id
                ((state.locals id).advance program.nbuffer (program.thread id)) } ∨
        (state.locals id).phase = .set ∧ state.access (state.place id hold) ≠ hold.state ∧
          program.step frame kernel state id = { state with exited := true }) := by
  simp only [Program.step, running, Bool.false_eq_true, if_false]
  cases found : program.current state id with
  | none => exact Or.inl rfl
  | some hold =>
      cases phase : (state.locals id).phase with
      | wait =>
          by_cases free : state.access (state.place id hold) = hold.waitStatus
          · refine Or.inr ⟨hold, rfl, Or.inl ⟨rfl, free, ?_⟩⟩
            simp [State.acquire, free, running]
          · left
            simp [State.acquire, waitForStatus_of_ne free]
      | access => exact Or.inr ⟨hold, rfl, Or.inr (Or.inl ⟨rfl, rfl⟩)⟩
      | set =>
          by_cases own : state.access (state.place id hold) = hold.state
          · refine Or.inr ⟨hold, rfl, Or.inr (Or.inr (Or.inl ⟨rfl, own, ?_⟩))⟩
            simp [Program.release, own, running]
          · refine Or.inr ⟨hold, rfl, Or.inr (Or.inr (Or.inr ⟨rfl, own, ?_⟩))⟩
            simp [Program.release, setStatus_of_ne own]

theorem Program.step_wait {hold : Hold} (exited : state.exited = false)
    (current : program.current state id = some hold) (waiting : (state.locals id).phase = .wait)
    (free : state.access (state.place id hold) = hold.waitStatus) :
    program.step frame kernel state id = { state with
      access := Function.update state.access (state.place id hold) hold.state
      locals := Function.update state.locals id { state.locals id with phase := .access } } := by
  simp [Program.step, exited, current, waiting, State.acquire, free]

theorem Program.step_access {hold : Hold} (exited : state.exited = false)
    (current : program.current state id = some hold)
    (accessing : (state.locals id).phase = .access) :
    program.step frame kernel state id = state.perform frame kernel id hold := by
  simp [Program.step, exited, current, accessing]

theorem Program.step_set {hold : Hold} (exited : state.exited = false)
    (current : program.current state id = some hold) (setting : (state.locals id).phase = .set)
    (own : state.access (state.place id hold) = hold.state) :
    program.step frame kernel state id = { state with
      access := Function.update state.access (state.place id hold) hold.setStatus
      locals := Function.update state.locals id
        ((state.locals id).advance program.nbuffer (program.thread id)) } := by
  simp [Program.step, exited, current, setting, Program.release, own]

theorem Program.step_exit {hold : Hold} (exited : state.exited = false)
    (current : program.current state id = some hold) (setting : (state.locals id).phase = .set)
    (lost : state.access (state.place id hold) ≠ hold.state) :
    program.step frame kernel state id = { state with exited := true } := by
  simp [Program.step, exited, current, setting, Program.release, setStatus_of_ne lost]

theorem Program.current_congr {successor : State α β}
    (index : (successor.locals id).index = (state.locals id).index)
    (hold : (successor.locals id).hold = (state.locals id).hold) :
    program.current successor id = program.current state id := by
  simp only [Program.current, index, hold]

theorem Program.running_congr {successor : State α β}
    (index : (successor.locals id).index = (state.locals id).index)
    (hold : (successor.locals id).hold = (state.locals id).hold) :
    program.Running successor id ↔ program.Running state id := by
  rw [Program.Running, Program.Running, Program.current_congr index hold]

theorem Program.holds_congr {successor : State α β} {hold : Hold} {place : Ring × Nat}
    (same : successor.locals id = state.locals id) :
    program.Holds successor id hold place ↔ program.Holds state id hold place := by
  have current : program.current successor id = program.current state id :=
    Program.current_congr (by rw [same]) (by rw [same])
  constructor
  · rintro ⟨found, phase, spot⟩
    exact ⟨by rwa [← current], by rwa [← same], by simpa only [State.place, same] using spot⟩
  · rintro ⟨found, phase, spot⟩
    exact ⟨by rwa [current], by rwa [same], by simpa only [State.place, same] using spot⟩

theorem Program.Holds.place_current {hold other : Hold} {place : Ring × Nat}
    (held : program.Holds state id other place) (current : program.current state id = some hold) :
    state.place id hold = place := by
  have same : other = hold := Option.some.inj (held.current.symm.trans current)
  rw [← same]
  exact held.place

theorem Program.current_some {hold : Hold} (found : program.current state id = some hold) :
    (state.locals id).index.i < program.count ∧
      (program.thread id).iteration[(state.locals id).hold]? = some hold := by
  unfold Program.current at found
  split at found
  · rename_i running
    exact ⟨running, found⟩
  · simp at found

end Steps

/-! The slots of the processing threads of `process.cpp`, whose number and the
size of the ring are two options. -/

theorem process_run (nbuffer count tn : Nat) {id : Nat} (processing : 2 ≤ id) :
    ((process nbuffer count tn).thread id).run = .processor (tn - 2) (id - 2) := by
  obtain ⟨offset, rfl⟩ := Nat.exists_eq_add_of_le processing
  rw [Nat.add_comm]
  rfl

theorem process_slots_iff {nbuffer tn : Nat} (ring : 0 < nbuffer) (threads : 3 ≤ tn)
    (count : Nat) :
    (∀ id, 2 ≤ id → id < tn →
      ((∀ n, ((process nbuffer count tn).thread id).run.Passed nbuffer count n → n < nbuffer) ↔
        id - 2 < nbuffer ∨ count ≤ id - 2)) ∧
    ((∀ id, 2 ≤ id → id < tn → ∀ n,
        ((process nbuffer count tn).thread id).run.Passed nbuffer count n → n < nbuffer) ↔
      tn - 2 ≤ nbuffer ∨ count ≤ nbuffer) := by
  have each (id : Nat) (processing : 2 ≤ id) :
      (∀ n, ((process nbuffer count tn).thread id).run.Passed nbuffer count n → n < nbuffer) ↔
        id - 2 < nbuffer ∨ count ≤ id - 2 := by
    rw [process_run nbuffer count tn processing]
    exact Run.passed_inside_iff ring count (tn - 2) (id - 2)
  refine ⟨fun id processing _ => each id processing, ?_⟩
  constructor
  · intro inside
    by_contra outside
    -- the thread whose first slot is the one behind the ring
    have last := (each (nbuffer + 2) (by omega)).mp (inside (nbuffer + 2) (by omega) (by omega))
    omega
  · intro few id processing bound
    rw [each id processing]
    omega

theorem process_slots_small :
    (∀ id, 2 ≤ id → id < 5 →
      ((∀ n, ((process 3 100 5).thread id).run.Passed 3 100 n → n < 3) ↔
        id - 2 < 3 ∨ 100 ≤ id - 2)) ∧
    ((∀ id, 2 ≤ id → id < 5 → ∀ n,
        ((process 3 100 5).thread id).run.Passed 3 100 n → n < 3) ↔ 5 - 2 ≤ 3 ∨ 100 ≤ 3) :=
  process_slots_iff (by decide) (by decide) 100

theorem process_slots_fail :
    ¬∀ id, 2 ≤ id → id < 4 → ∀ n,
      ((process 1 100 4).thread id).run.Passed 1 100 n → n < 1 := by
  intro inside
  have second := inside 3 (by decide) (by decide)
  rw [process_run 1 100 4 (by decide), Run.passed_inside_iff (by decide)] at second
  exact absurd second (by decide)

end RockAMali
