import RockAMali.Liveness
import RockAMali.ProcessorShare

/-!
Processors that are objects. Each processing thread has one of its own, whose
members the kernel may read and change, and which it keeps from frame to frame.
A frame is then processed with what the earlier frames of its thread have left.
-/

namespace RockAMali

/-! `kernel members image` is what `kernel(images[n],image)` does to the members
of its object, and the image that it leaves in the member `image`. -/

structure Objects (α β μ : Type*) where
  state : State α β
  members : Nat → μ

section Semantics

variable {α β μ : Type*} (frame : Nat → α) (kernel : μ → α → μ × β) (program : Program)

def objectKernel (members : μ) (input : α) : β := (kernel members input).2

def Program.kernelInput (state : State α β) (id : Nat) : Option α :=
  if state.exited then none
  else
    match program.current state id with
    | none => none
    | some hold =>
        if (state.locals id).phase = .access ∧ hold.action = .kernel then
          some (state.data.images (state.locals id).index.n)
        else none

def Program.objectStep (objects : Objects α β μ) (id : Nat) : Objects α β μ where
  state := program.step frame (objectKernel kernel (objects.members id)) objects.state id
  members :=
    match program.kernelInput objects.state id with
    | none => objects.members
    | some input =>
        Function.update objects.members id (kernel (objects.members id) input).1

structure Program.InitialObjects (members : Nat → μ) (objects : Objects α β μ) : Prop where
  state : program.Initial objects.state
  members : objects.members = members

def Program.ObjectsReachable (members : Nat → μ) (objects : Objects α β μ) : Prop :=
  Transition.Reachable (program.InitialObjects members)
    (fun objects successor => ∃ id < program.threads,
      successor = program.objectStep frame kernel objects id) objects

def left (members : μ) (past : List α) : μ :=
  past.foldl (fun members input => (kernel members input).1) members

/-- The frames that the thread of frame `i` has had before, when `share` says
which thread has which frame. -/
def priors (share : Nat → Nat) (i : Nat) : List α :=
  ((List.range i).filter fun j => share j = share i).map frame

def processed (members : Nat → μ) (share : Nat → Nat) (i : Nat) : β :=
  objectKernel kernel (left kernel (members (share i)) (priors frame share i)) (frame i)

end Semantics

section Numbered

variable {α β γ : Type*}

def Data.mapImages (g : γ → α) (data : Data γ β) : Data α β where
  images slot := g (data.images slot)
  results := data.results
  reads slot := (data.reads slot).map fun entry => (entry.1, g entry.2)
  stored := data.stored.map g
  storedR := data.storedR
  sent := data.sent.map g

def State.mapImages (g : γ → α) (state : State γ β) : State α β where
  access := state.access
  data := state.data.mapImages g
  locals := state.locals
  exited := state.exited

variable {g : γ → α} {frame : Nat → γ} {kernel : γ → β} {other : α → β} {program : Program}
  {state : State γ β} {id : Nat}

theorem State.mapImages_inverse {h : α → γ} (inverse : ∀ image, h (g image) = image)
    (state : State γ β) : (state.mapImages g).mapImages h = state := by
  simp [State.mapImages, Data.mapImages, Function.comp_def, inverse]

theorem Program.Initial.mapImages (first : program.Initial state) :
    program.Initial (state.mapImages g) := by
  constructor
  · exact first.free
  · intro slot
    simp [State.mapImages, Data.mapImages, first.reads]
  · simp [State.mapImages, Data.mapImages, first.stored]
  · exact first.storedR
  · simp [State.mapImages, Data.mapImages, first.sent]
  · exact first.index
  · exact first.hold
  · exact first.phase
  · exact first.exited

theorem Program.current_mapImages :
    program.current (state.mapImages g) id = program.current state id := rfl

theorem Hold.perform_mapImages {hold : Hold} {index : Index} {data : Data γ β} {image : β}
    (same : hold.action = .kernel → other (g (data.images index.n)) = kernel (data.images index.n)) :
    hold.perform (fun i => g (frame i)) other index (data.mapImages g) image =
      ((hold.perform frame kernel index data image).1.mapImages g,
        (hold.perform frame kernel index data image).2) := by
  rcases hold with ⟨ring, _, _, _, _ | _ | _ | _ | _⟩
  case fill =>
    simp only [Hold.perform, Data.mapImages, Prod.mk.injEq, Data.mk.injEq, and_true]
    funext slot
    exact (Function.apply_update (fun _ => g) _ _ _ _).symm
  case kernel =>
    simp only [Hold.perform, Data.mapImages, Prod.mk.injEq, Data.mk.injEq, true_and, and_true]
    refine ⟨?_, same rfl⟩
    funext slot
    by_cases here : slot = index.n
    · subst here
      simp
    · simp [here]
  case copy => rfl
  case store => cases ring <;> simp [Hold.perform, Data.mapImages]
  case send => simp [Hold.perform, Data.mapImages]

theorem Program.step_mapImages (same : ∀ hold, program.current state id = some hold →
      (state.locals id).phase = .access → hold.action = .kernel →
        other (g (state.data.images (state.locals id).index.n)) =
          kernel (state.data.images (state.locals id).index.n)) :
    program.step (fun i => g (frame i)) other (state.mapImages g) id =
      (program.step frame kernel state id).mapImages g := by
  simp only [Program.step]
  rw [Program.current_mapImages]
  by_cases exited : state.exited = true
  · simp only [State.mapImages, exited, if_true]
  · rw [if_neg (by exact exited), if_neg exited]
    cases current : program.current state id with
    | none => rfl
    | some hold =>
        have phases : ((state.mapImages g).locals id).phase = (state.locals id).phase := rfl
        simp only [phases]
        cases phase : (state.locals id).phase with
        | wait =>
            have places : (state.mapImages g).access ((state.mapImages g).place id hold) =
              state.access (state.place id hold) := rfl
            simp only [State.acquire, places]
            split <;> rfl
        | access =>
            have performed := fun image => @Hold.perform_mapImages _ _ _ g frame kernel other hold _ _
              image (same hold current phase)
            simp only [State.perform, State.mapImages, performed]
        | set =>
            have places : (state.mapImages g).access ((state.mapImages g).place id hold) =
              state.access (state.place id hold) := rfl
            simp only [Program.release, places]
            split <;> rfl

theorem Program.kernelInput_mapImages :
    program.kernelInput (state.mapImages g) id = (program.kernelInput state id).map g := by
  simp only [Program.kernelInput]
  rw [Program.current_mapImages]
  have exits : (state.mapImages g).exited = state.exited := rfl
  rw [exits]
  split
  · rfl
  · cases program.current state id with
    | none => rfl
    | some hold =>
        have phases : ((state.mapImages g).locals id).phase = (state.locals id).phase := rfl
        simp only [phases]
        split <;> rfl

theorem Program.kernelInput_some {input : γ} (found : program.kernelInput state id = some input) :
    ∃ hold, program.current state id = some hold ∧ (state.locals id).phase = .access ∧
      hold.action = .kernel ∧ input = state.data.images (state.locals id).index.n := by
  rw [Program.kernelInput] at found
  split at found
  · cases found
  · cases current : program.current state id with
    | none =>
        rw [current] at found
        cases found
    | some hold =>
        rw [current] at found
        simp only [Option.ite_none_right_eq_some, Option.some.injEq] at found
        obtain ⟨⟨accessing, action⟩, same⟩ := found
        exact ⟨hold, rfl, accessing, action, same.symm⟩

theorem Program.kernelInput_of_kernel {hold : Hold} (exited : state.exited = false)
    (current : program.current state id = some hold)
    (accessing : (state.locals id).phase = .access) (action : hold.action = .kernel) :
    program.kernelInput state id = some (state.data.images (state.locals id).index.n) := by
  simp [Program.kernelInput, exited, current, accessing, action]

end Numbered

section Refinement

variable {α β γ μ : Type*} {program : Program} {roster : Roster program} {ready : Taccess}

def Program.Processes (program : Program) (id : Nat) : Prop :=
  id < program.threads ∧ ∃ first second, (program.thread id).iteration = [first, second] ∧
    first.action = .kernel

theorem Roster.Dataflow.kernel_first (laws : roster.Dataflow ready) {id part : Nat} {hold : Hold}
    (processes : program.Processes id)
    (found : (program.thread id).iteration[part]? = some hold) :
    part = 0 ↔ hold.action = .kernel := by
  obtain ⟨bound, first, second, holds, kernels⟩ := processes
  cases laws.duty id bound part hold found with
  | fill action _ _ _ =>
      rw [holds] at found
      simp only [List.getElem?_cons_zero, Option.some.injEq] at found
      simp [← found, kernels]
  | kernel action _ _ _ => simp [action]
  | copy action _ _ _ _ => simp [action]
  | store action _ _ single => simp [single] at holds
  | send action _ _ _ single => simp [single] at holds

theorem Roster.Invariant.accesses_kernel {state : State γ β} {frame : Nat → γ} {kernel : γ → β}
    (invariant : roster.Invariant state) (laws : roster.Dataflow ready) {id other : Nat}
    (bound : id < program.threads) (processes : program.Processes other) :
    (program.thread other).accesses ((program.step frame kernel state id).locals other) 0 =
      (program.thread other).accesses (state.locals other) 0 +
        if other = id ∧ (program.kernelInput state id).isSome then 1 else 0 := by
  have within : 0 < (program.thread other).iteration.length := by
    obtain ⟨_, _, _, holds, _⟩ := processes
    simp [holds]
  by_cases performs : ∃ hold, program.current state id = some hold ∧
      (state.locals id).phase = .access
  · obtain ⟨hold, current, accessing⟩ := performs
    rw [Program.step_access invariant.exited current accessing, Roster.accesses_perform accessing]
    by_cases mine : other = id
    · subst mine
      have first := laws.kernel_first processes (Program.current_some current).2
      by_cases kernels : hold.action = .kernel
      · simp [Program.kernelInput_of_kernel invariant.exited current accessing kernels,
          first.mpr kernels]
      · have later : 0 ≠ (state.locals other).hold := fun part => kernels (first.mp part.symm)
        simp [Program.kernelInput, current, kernels, later]
    · simp [mine]
  · have none : program.kernelInput state id = none := by
      by_contra some
      obtain ⟨input, found⟩ := Option.ne_none_iff_exists'.mp some
      obtain ⟨hold, current, accessing, _⟩ := Program.kernelInput_some found
      exact performs ⟨hold, current, accessing⟩
    rw [none, Option.isSome_none, if_neg (by simp), Nat.add_zero]
    apply invariant.accesses_step bound within
    rintro rfl running accessing
    obtain ⟨hold, current⟩ := Option.isSome_iff_exists.mp running
    exact performs ⟨hold, current, accessing⟩

variable {frame : Nat → α} {kernel : μ → α → μ × β} {members : Nat → μ} {share : Nat → Nat}
  {objects : Objects α β μ} {id : Nat}

def numbered (frame : Nat → α) (i : Nat) : Nat × α := (i, frame i)

def numberedKernel (frame : Nat → α) (kernel : μ → α → μ × β) (members : Nat → μ)
    (share : Nat → Nat) (input : Nat × α) : β :=
  processed frame kernel members share input.1

structure Objects.Keeps (program : Program) (frame : Nat → α) (kernel : μ → α → μ × β)
    (members : Nat → μ) (objects : Objects α β μ) (plain : State (Nat × α) β) : Prop where
  state : objects.state = plain.mapImages Prod.snd
  members : ∀ id, program.Processes id → objects.members id = left kernel (members id)
    (((List.range ((program.thread id).accesses (plain.locals id) 0)).map
      (program.frameOf id)).map frame)

variable {plain : State (Nat × α) β}

theorem left_append (past : List α) (input : α) (members : μ) :
    left kernel members (past ++ [input]) = (kernel (left kernel members past) input).1 := by
  simp [left]

theorem Objects.Keeps.input (keeps : objects.Keeps program frame kernel members plain)
    (invariant : roster.Invariant plain) (laws : roster.Dataflow ready)
    (flow : roster.Flow (numbered frame) (numberedKernel frame kernel members share) plain)
    (shares : program.Shares share) (bound : id < program.threads) {input : Nat × α}
    (found : program.kernelInput plain id = some input) :
    program.Processes id ∧
      input = numbered frame (program.frameOf id
        ((program.thread id).accesses (plain.locals id) 0)) ∧
      objectKernel kernel (objects.members id) input.2 =
        numberedKernel frame kernel members share input := by
  obtain ⟨hold, current, accessing, kernels, rfl⟩ := Program.kernelInput_some found
  obtain ⟨_, _, second, holds⟩ := laws.reads bound (Program.current_some current).2 kernels
  have processes : program.Processes id := ⟨bound, hold, second, holds, kernels⟩
  have first := (laws.kernel_first processes (Program.current_some current).2).mpr kernels
  have accesses : (program.thread id).accesses (plain.locals id) 0 =
      (program.thread id).iterations (plain.locals id) := by
    simp [Thread.accesses, accessing, first]
  have read := flow.read_kernel invariant laws bound current accessing kernels
  refine ⟨processes, by rw [read, accesses], ?_⟩
  rw [read, keeps.members id processes, accesses, shares.earlier id bound _ _ holds kernels,
    numberedKernel, processed, numbered, priors, shares.own id bound _ _ holds kernels]

theorem Objects.Keeps.step (keeps : objects.Keeps program frame kernel members plain)
    (invariant : roster.Invariant plain) (laws : roster.Dataflow ready)
    (flow : roster.Flow (numbered frame) (numberedKernel frame kernel members share) plain)
    (shares : program.Shares share) (bound : id < program.threads) :
    (program.objectStep frame kernel objects id).Keeps program frame kernel members
      (program.step (numbered frame) (numberedKernel frame kernel members share) plain id) := by
  constructor
  · rw [Program.objectStep, keeps.state]
    show program.step (fun i => (numbered frame i).2) _ (plain.mapImages Prod.snd) id = _
    apply Program.step_mapImages
    intro hold current accessing kernels
    exact (keeps.input invariant laws flow shares bound
      (Program.kernelInput_of_kernel invariant.exited current accessing kernels)).2.2
  · intro other processes
    rw [invariant.accesses_kernel laws bound processes]
    have inputs : program.kernelInput objects.state id =
        (program.kernelInput plain id).map Prod.snd := by
      rw [keeps.state, Program.kernelInput_mapImages]
    simp only [Program.objectStep, inputs]
    cases found : program.kernelInput plain id with
    | none => simpa using keeps.members other processes
    | some input =>
        obtain ⟨_, same, _⟩ := keeps.input invariant laws flow shares bound found
        by_cases mine : other = id
        · subst mine
          simp only [Option.map_some, Option.isSome_some, and_self, if_true, Function.update_self,
            List.range_succ, List.map_append, List.map_singleton, left_append]
          rw [← keeps.members other processes, same, numbered]
        · simpa [mine] using keeps.members other processes

theorem Objects.exists_plain (roster : Roster program) (laws : roster.Dataflow ready)
    (shares : program.Shares share)
    (reachable : program.ObjectsReachable frame kernel members objects) :
    ∃ plain, program.Reachable (numbered frame) (numberedKernel frame kernel members share) plain ∧
      objects.Keeps program frame kernel members plain := by
  apply Transition.Reachable.related _ _ reachable
  · intro objects first
    refine ⟨objects.state.mapImages fun image => (0, image), first.state.mapImages, ?_, ?_⟩
    · exact (State.mapImages_inverse (fun _ => rfl) _).symm
    · intro id _
      have start : (program.thread id).accesses (objects.state.locals id) 0 = 0 := by
        simp [Thread.accesses, Thread.iterations, first.state.index, first.state.hold,
          first.state.phase, Run.first]
      have locals : (objects.state.mapImages fun image => (0, image)).locals =
        objects.state.locals := rfl
      rw [locals, start, first.members]
      rfl
  · rintro before after plain reached keeps ⟨id, bound, rfl⟩
    obtain ⟨invariant, flow⟩ := Roster.flow_of_reachable roster laws reached
    exact Or.inr ⟨_, ⟨id, bound, rfl⟩, keeps.step invariant laws flow shares bound⟩

end Refinement

section Sequential

variable {α β μ : Type*} (frame : Nat → α) (kernel : μ → α → μ × β)

def Hold.executeObject (hold : Hold) (index : Index) (current : Sequential α β × μ) :
    Option (Sequential α β × μ) :=
  (hold.execute frame (objectKernel kernel current.2) index current.1).map fun next =>
    (next, if hold.action = .kernel then
      (kernel current.2 (current.1.data.images index.n)).1 else current.2)

def executeObjects (index : Index) : List Hold → Sequential α β × μ → Option (Sequential α β × μ)
  | [], current => some current
  | hold :: holds, current =>
      (hold.executeObject frame kernel index current).bind (executeObjects index holds)

/-- for(unsigned int i=0;i<count;++i) -/
def processSequentialObject : Nat → Sequential α β × μ → Option (Sequential α β × μ)
  | 0, current => some current
  | i + 1, current => (processSequentialObject i current).bind
      (executeObjects frame kernel ⟨0, i⟩ processSequential.iteration)

variable {frame kernel}

theorem Hold.executeObject_eq {hold : Hold} {index : Index} {current : Sequential α β × μ}
    (free : current.1.access (hold.ring, index.n) = hold.waitStatus) :
    hold.executeObject frame kernel index current =
      some (⟨Function.update current.1.access (hold.ring, index.n) hold.setStatus,
          (hold.perform frame (objectKernel kernel current.2) index current.1.data
            current.1.image).1,
          (hold.perform frame (objectKernel kernel current.2) index current.1.data
            current.1.image).2⟩,
        if hold.action = .kernel then (kernel current.2 (current.1.data.images index.n)).1
        else current.2) := by
  rw [Hold.executeObject, Hold.execute_eq free, Option.map_some]

theorem processSequentialObject_step {current : Sequential α β × μ} (i : Nat)
    (images : current.1.access (.images, 0) = statusFree)
    (results : current.1.access (.results, 0) = statusFree) :
    ∃ next, executeObjects frame kernel ⟨0, i⟩ processSequential.iteration current = some next ∧
      next.1.access (.images, 0) = statusFree ∧ next.1.access (.results, 0) = statusFree ∧
      next.1.data.stored = current.1.data.stored ++ [frame i] ∧
      next.1.data.storedR = current.1.data.storedR ++ [objectKernel kernel current.2 (frame i)] ∧
      next.2 = (kernel current.2 (frame i)).1 := by
  simp [processSequential.iteration, DataGenerator.iteration, DataProcessor.iteration,
    DataStore.iteration, executeObjects, Hold.executeObject_eq, images, results]

theorem processSequentialObject_stores {current : Sequential α β × μ} (first : current.1.Initial)
    (count : Nat) :
    ∃ last, processSequentialObject frame kernel count current = some last ∧
      last.1.access (.images, 0) = statusFree ∧ last.1.access (.results, 0) = statusFree ∧
      last.1.data.stored = (List.range count).map frame ∧
      last.1.data.storedR = (List.range count).map (fun i =>
        objectKernel kernel (left kernel current.2 ((List.range i).map frame)) (frame i)) ∧
      last.2 = left kernel current.2 ((List.range count).map frame) := by
  induction count with
  | zero =>
      refine ⟨current, ?_, first.free _, first.free _, ?_, ?_, rfl⟩
      · rw [processSequentialObject]
      · simp [first.stored]
      · simp [first.storedR]
  | succ count ih =>
      obtain ⟨before, ran, images, results, stored, storedR, members⟩ := ih
      obtain ⟨next, taken, nextImages, nextResults, nextStored, nextStoredR, nextMembers⟩ :=
        processSequentialObject_step count images results
      refine ⟨next, ?_, nextImages, nextResults, ?_, ?_, ?_⟩
      · rw [processSequentialObject, ran]
        exact taken
      · rw [nextStored, stored, List.range_succ, List.map_append]
        rfl
      · rw [nextStoredR, storedR, members, List.range_succ, List.map_append]
        rfl
      · rw [nextMembers, members, List.range_succ, List.map_append, List.map_singleton,
          left_append]

end Sequential

section Programs

variable {α β μ : Type*} {nbuffer count stride : Nat}

theorem process_results {frame : Nat → α} {kernel : α → β} {state : State α β}
    (positive : 0 < stride) (fits : stride ≤ nbuffer)
    (reachable : (process nbuffer count (stride + 2)).Reachable frame kernel state) :
    state.data.storedR <+: (List.range count).map fun i => kernel (frame i) := by
  have laws : (processRoster nbuffer count stride positive fits).Dataflow statusFilled :=
    processRoster_dataflow positive fits
  obtain ⟨invariant, flow⟩ := Roster.flow_of_reachable _ laws reachable
  have loops := Roster.loops_of_reachable (processRoster nbuffer count stride positive fits)
    reachable
  have storing : 1 < (process nbuffer count (stride + 2)).threads := by
    simp only [process]
    omega
  rw [flow.storedR 1 storing _ rfl rfl rfl]
  exact range_prefix (loops.accesses_le_count invariant storing rfl) _

theorem receive_results {frame : Nat → α} {kernel : α → β} {state : State α β}
    (positive : 0 < stride) (fits : stride ≤ nbuffer)
    (reachable : (receive nbuffer count (stride + 3)).Reachable frame kernel state) :
    state.data.stored <+: (List.range count).map frame ∧
      state.data.storedR <+: (List.range count).map fun i => kernel (frame i) := by
  have laws : (receiveRoster nbuffer count stride positive fits).Dataflow statusReceived :=
    receiveRoster_dataflow positive fits
  obtain ⟨invariant, flow⟩ := Roster.flow_of_reachable _ laws reachable
  have loops := Roster.loops_of_reachable (receiveRoster nbuffer count stride positive fits)
    reachable
  have storing : 2 < (receive nbuffer count (stride + 3)).threads := by
    simp only [receive]
    omega
  have raw : 1 < (receive nbuffer count (stride + 3)).threads := Nat.lt_of_succ_lt storing
  constructor
  · rw [flow.stored 1 raw _ rfl rfl rfl]
    exact range_prefix (loops.accesses_le_count invariant raw rfl) _
  · rw [flow.storedR 2 storing _ rfl rfl rfl]
    exact range_prefix (loops.accesses_le_count invariant storing rfl) _

variable {frame : Nat → α} {kernel : μ → α → μ × β} {members : Nat → μ}
  {objects : Objects α β μ}

theorem process_objects (positive : 0 < stride) (fits : stride ≤ nbuffer)
    (reachable : (process nbuffer count (stride + 2)).ObjectsReachable frame kernel members
      objects) :
    objects.state.data.storedR <+: (List.range count).map
        (processed frame kernel members fun i => i % nbuffer % stride + 2) ∧
      ((process nbuffer count (stride + 2)).Finished objects.state →
        objects.state.data.storedR = (List.range count).map
          (processed frame kernel members fun i => i % nbuffer % stride + 2)) := by
  have laws : (processRoster nbuffer count stride positive fits).Dataflow statusFilled :=
    processRoster_dataflow positive fits
  obtain ⟨plain, reached, keeps⟩ := Objects.exists_plain _ laws (process_shares fits) reachable
  have results : objects.state.data.storedR = plain.data.storedR := by
    rw [keeps.state]
    rfl
  rw [results]
  refine ⟨process_results positive fits reached, ?_⟩
  intro finished
  apply process_finished positive fits reached
  rw [keeps.state] at finished
  exact finished

theorem receive_objects (positive : 0 < stride) (fits : stride ≤ nbuffer)
    (reachable : (receive nbuffer count (stride + 3)).ObjectsReachable frame kernel members
      objects) :
    (objects.state.data.stored <+: (List.range count).map frame ∧
      objects.state.data.storedR <+: (List.range count).map
        (processed frame kernel members fun i => i % nbuffer % stride + 3)) ∧
      ((receive nbuffer count (stride + 3)).Finished objects.state →
        objects.state.data.stored = (List.range count).map frame ∧
        objects.state.data.storedR = (List.range count).map
          (processed frame kernel members fun i => i % nbuffer % stride + 3)) := by
  have laws : (receiveRoster nbuffer count stride positive fits).Dataflow statusReceived :=
    receiveRoster_dataflow positive fits
  obtain ⟨plain, reached, keeps⟩ := Objects.exists_plain _ laws (receive_shares fits) reachable
  have results : objects.state.data.storedR = plain.data.storedR := by
    rw [keeps.state]
    rfl
  have raw : objects.state.data.stored = plain.data.stored.map Prod.snd := by
    rw [keeps.state]
    rfl
  have frames : (List.range count).map frame =
      ((List.range count).map (numbered frame)).map Prod.snd := by
    rw [List.map_map]
    rfl
  rw [results, raw, frames]
  obtain ⟨stored, storedR⟩ := receive_results positive fits reached
  refine ⟨⟨stored.map Prod.snd, storedR⟩, ?_⟩
  intro finished
  rw [keeps.state] at finished
  obtain ⟨all, allR⟩ := receive_finished positive fits reached finished
  exact ⟨congrArg (List.map Prod.snd) all, allR⟩

section Values

variable {γ : Type*} {result : β → γ} {value : Nat → γ}

theorem processed_map (same : ∀ share i, result (processed frame kernel members share i) = value i)
    (share : Nat → Nat) :
    ((List.range count).map (processed frame kernel members share)).map result =
      (List.range count).map value := by
  rw [List.map_map]
  exact List.map_congr_left fun i _ => same share i

theorem process_values (positive : 0 < stride) (fits : stride ≤ nbuffer)
    (same : ∀ share i, result (processed frame kernel members share i) = value i)
    (reachable : (process nbuffer count (stride + 2)).ObjectsReachable frame kernel members
      objects) :
    objects.state.data.storedR.map result <+: (List.range count).map value ∧
      ((process nbuffer count (stride + 2)).Finished objects.state →
        objects.state.data.storedR.map result = (List.range count).map value) := by
  obtain ⟨early, complete⟩ := process_objects positive fits reachable
  rw [← processed_map same]
  exact ⟨early.map result, fun finished => congrArg _ (complete finished)⟩

end Values

theorem objects_run {program : Program} {start : Objects α β μ}
    (first : program.InitialObjects members start) {schedule : List Nat}
    (within : ∀ id ∈ schedule, id < program.threads) :
    program.ObjectsReachable frame kernel members
      (schedule.foldl (program.objectStep frame kernel) start) := by
  induction schedule using List.reverseRecOn with
  | nil => exact .start first
  | append_singleton schedule id ih =>
      rw [List.foldl_append, List.foldl_cons, List.foldl_nil]
      refine .step (ih fun other member => within other (List.mem_append_left _ member)) ?_
      exact ⟨id, within id (List.mem_append_right _ List.mem_cons_self), rfl⟩

/-- Each frame is processed by an object that has had the earlier frames of the
slots of its thread, whatever the order of the steps, and the files are in the
order of the frames. -/
theorem objects_store (positive : 0 < stride) (fits : stride ≤ nbuffer)
    (frame : Nat → α) (kernel : μ → α → μ × β) (members : Nat → μ) (objects : Objects α β μ) :
    ((process nbuffer count (stride + 2)).ObjectsReachable frame kernel members objects →
      objects.state.data.storedR <+: (List.range count).map
        (processed frame kernel members fun i => i % nbuffer % stride + 2) ∧
      ((process nbuffer count (stride + 2)).Finished objects.state →
        objects.state.data.storedR = (List.range count).map
          (processed frame kernel members fun i => i % nbuffer % stride + 2))) ∧
    ((receive nbuffer count (stride + 3)).ObjectsReachable frame kernel members objects →
      (objects.state.data.stored <+: (List.range count).map frame ∧
        objects.state.data.storedR <+: (List.range count).map
          (processed frame kernel members fun i => i % nbuffer % stride + 3)) ∧
      ((receive nbuffer count (stride + 3)).Finished objects.state →
        objects.state.data.stored = (List.range count).map frame ∧
        objects.state.data.storedR = (List.range count).map
          (processed frame kernel members fun i => i % nbuffer % stride + 3))) :=
  ⟨process_objects positive fits, receive_objects positive fits⟩

end Programs

theorem objects_store_sums :
    let kernel (sum input : Nat) := (sum + input, sum + input)
    let turns := [0, 0, 0, 0, 0, 0, 3, 3, 3, 3, 3, 3, 2, 2, 2, 2, 2, 2, 0, 0, 0, 1, 1, 1, 1, 1, 1,
      2, 2, 2, 2, 2, 2, 1, 1, 1]
    let objects := turns.foldl ((process 2 3 4).objectStep Nat.succ kernel)
      ⟨(process 2 3 4).start 0 0, fun _ => 0⟩
    objects.state.data.storedR = [1, 2, 4] ∧ objects.state.data.storedR <+:
      (List.range 3).map (processed Nat.succ kernel (fun _ => 0) fun i => i % 2 % 2 + 2) := by
  intro kernel turns objects
  have members : ∀ id ∈ turns, id < (process 2 3 (2 + 2)).threads := by decide
  have first : (process 2 3 (2 + 2)).InitialObjects (fun _ => 0)
      (⟨(process 2 3 4).start 0 0, fun _ => 0⟩ : Objects Nat Nat Nat) :=
    ⟨Program.start_initial 0 0, rfl⟩
  have reachable : (process 2 3 (2 + 2)).ObjectsReachable Nat.succ kernel (fun _ => 0) objects :=
    objects_run first members
  have stored : objects.state.data.storedR = [1, 2, 4] := by decide +kernel
  exact ⟨stored, ((objects_store (by decide) (by decide) Nat.succ kernel (fun _ => 0)
    objects).1 reachable).1⟩

end RockAMali
