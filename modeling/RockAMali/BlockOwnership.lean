import RockAMali.Library.Transition
import RockAMali.BlockLock

/-!
`CDataGenerator_Peak_exp::iterationBlock` beside consumers that take and release
single slots, as `CDataProcessor::iteration` does. A step is a locked section.
-/

namespace RockAMali

inductive GeneratorPhase
  | idle
  | waiting (n : Nat)
  | filling (n j : Nat)
deriving DecidableEq

/-- `held` is the slot that a consumer has between its wait and its set. -/
structure Blocks where
  access : Nat → Taccess
  generator : GeneratorPhase
  held : Nat → Option Nat
  exited : Bool

inductive BlockSection
  | call (n : Nat)
  | look
  | set
  | take (consumer slot : Nat)
  | release (consumer : Nat)
deriving DecidableEq

/-- The generator waits for another status than those of a slot that a consumer
has or is to have. -/
structure BlockProgram where
  blockSize : Nat
  waitStatus : Taccess
  setStatus : Taccess
  setStatusProcessor : Taccess
  notFilled : waitStatus ≠ statusFilled
  notProcessing : waitStatus ≠ stateProcessing

namespace BlockProgram

variable (program : BlockProgram) (state : Blocks)

def start (access : Nat → Taccess) : Blocks := ⟨access, .idle, fun _ => none, false⟩

def call (n : Nat) : Option Blocks :=
  if state.generator = .idle then some { state with generator := .waiting n } else none

def look : Option Blocks :=
  match state.generator with
  | .waiting n =>
      match waitForStatusBlock state.access n program.blockSize program.waitStatus stateFilling with
      | none => some state
      | some access => some { state with access := access, generator := .filling n 0 }
  | _ => none

def set : Option Blocks :=
  match state.generator with
  | .filling n j =>
      match RockAMali.setStatus (state.access (n + j)) stateFilling program.setStatus with
      | none => some { state with exited := true }
      | some status =>
          some { state with
            access := Function.update state.access (n + j) status
            generator := if j + 1 < program.blockSize then .filling n (j + 1) else .idle }
  | _ => none

def take (consumer slot : Nat) : Option Blocks :=
  if state.held consumer = none then
    match waitForStatus (state.access slot) statusFilled stateProcessing with
    | none => some state
    | some status =>
        some { state with
          access := Function.update state.access slot status
          held := Function.update state.held consumer (some slot) }
  else none

def release (consumer : Nat) : Option Blocks :=
  match state.held consumer with
  | none => none
  | some slot =>
      match RockAMali.setStatus (state.access slot) stateProcessing program.setStatusProcessor with
      | none => some { state with exited := true }
      | some status =>
          some { state with
            access := Function.update state.access slot status
            held := Function.update state.held consumer none }

def step (label : BlockSection) : Option Blocks :=
  if state.exited then none
  else
    match label with
    | .call n => call state n
    | .look => program.look state
    | .set => program.set state
    | .take consumer slot => take state consumer slot
    | .release consumer => program.release state consumer

def Safe : BlockSection → Prop
  | .look => ∀ n, state.generator = .waiting n →
      (waitForStatusBlock state.access n program.blockSize program.waitStatus
        stateFilling).isSome →
      ∀ j < program.blockSize, state.access (n + j) = program.waitStatus
  | .release consumer => ∀ slot, state.held consumer = some slot →
      RockAMali.setStatus (state.access slot) stateProcessing program.setStatusProcessor ≠ none
  | _ => True

/-- The last slot of a block has the awaited status only after the others: when
the generator comes to the block, and when a consumer releases that slot while
the generator waits. -/
def Ordered : BlockSection → Prop
  | .call n => state.generator = .idle →
      state.access (lastSlot n program.blockSize) = program.waitStatus →
      ∀ j < program.blockSize, state.access (n + j) = program.waitStatus
  | .release consumer => ∀ n, state.generator = .waiting n →
      state.held consumer = some (lastSlot n program.blockSize) →
      program.setStatusProcessor = program.waitStatus →
      ∀ j < program.blockSize - 1, state.access (n + j) = program.waitStatus
  | _ => True

structure Owned : Prop where
  running : state.exited = false
  held : ∀ consumer slot, state.held consumer = some slot → state.access slot = stateProcessing
  alone : ∀ consumer other slot, state.held consumer = some slot →
    state.held other = some slot → consumer = other
  waiting : ∀ n, state.generator = .waiting n →
    state.access (lastSlot n program.blockSize) = program.waitStatus →
    ∀ j < program.blockSize, state.access (n + j) = program.waitStatus
  filling : ∀ n j, state.generator = .filling n j → j < program.blockSize ∧
    ∀ i, j ≤ i → i < program.blockSize → state.access (n + i) = stateFilling

variable {program} {state} {next : Blocks} {label : BlockSection}

theorem call_eq_some {n : Nat} : call state n = some next ↔
    state.generator = .idle ∧ next = { state with generator := .waiting n } := by
  simp [call, eq_comm]

theorem look_eq_some : program.look state = some next ↔ ∃ n, state.generator = .waiting n ∧
    (state.access (lastSlot n program.blockSize) ≠ program.waitStatus ∧ next = state ∨
      state.access (lastSlot n program.blockSize) = program.waitStatus ∧ next = { state with
        access := writeBlock n stateFilling program.blockSize state.access
        generator := .filling n 0 }) := by
  rw [look]
  split
  · rename_i n waiting
    by_cases free : state.access (lastSlot n program.blockSize) = program.waitStatus
    · simp [waitForStatusBlock, waiting, free, eq_comm]
    · simp [waitForStatusBlock, waiting, free, @eq_comm _ state]
  · rename_i elsewhere
    constructor
    · nofun
    · rintro ⟨n, waiting, _⟩
      exact (elsewhere n waiting).elim

theorem set_eq_some {n j : Nat} (generator : state.generator = .filling n j)
    (filling : state.access (n + j) = stateFilling) : program.set state = some next ↔
    next = { state with
      access := Function.update state.access (n + j) program.setStatus
      generator := if j + 1 < program.blockSize then .filling n (j + 1) else .idle } := by
  simp [set, generator, filling, eq_comm]

theorem take_eq_some {consumer slot : Nat} : take state consumer slot = some next ↔
    state.held consumer = none ∧ (state.access slot ≠ statusFilled ∧ next = state ∨
      state.access slot = statusFilled ∧ next = { state with
        access := Function.update state.access slot stateProcessing
        held := Function.update state.held consumer (some slot) }) := by
  by_cases filled : state.access slot = statusFilled
  · simp [take, filled, eq_comm]
  · simp [take, waitForStatus_of_ne filled, filled, eq_comm]

theorem release_eq_some {consumer slot : Nat} (held : state.held consumer = some slot)
    (processing : state.access slot = stateProcessing) :
    program.release state consumer = some next ↔ next = { state with
      access := Function.update state.access slot program.setStatusProcessor
      held := Function.update state.held consumer none } := by
  simp [release, held, processing, eq_comm]

theorem Owned.start (access : Nat → Taccess) : program.Owned (start access) := by
  constructor <;> simp [BlockProgram.start]

theorem Owned.safe (owned : program.Owned state) (label : BlockSection) :
    program.Safe state label := by
  cases label with
  | look =>
      intro n waiting found
      apply owned.waiting n waiting
      by_contra busy
      simp [waitForStatusBlock, busy] at found
  | release consumer =>
      intro slot held
      simp [owned.held consumer slot held]
  | call n => trivial
  | set => trivial
  | take consumer slot => trivial

theorem Owned.held_ne (owned : program.Owned state) {consumer place slot : Nat}
    (held : state.held consumer = some place) (other : state.access slot ≠ stateProcessing) :
    place ≠ slot := by
  rintro rfl
  exact other (owned.held consumer place held)

theorem Owned.waiting_update (owned : program.Owned state) {n slot : Nat} {status : Taccess}
    (waiting : state.generator = .waiting n) (busy : state.access slot ≠ program.waitStatus)
    (elsewhere : lastSlot n program.blockSize ≠ slot)
    (last : Function.update state.access slot status (lastSlot n program.blockSize) =
      program.waitStatus) :
    ∀ j < program.blockSize,
      Function.update state.access slot status (n + j) = program.waitStatus := by
  intro j bound
  rw [Function.update_of_ne elsewhere] at last
  have free := owned.waiting n waiting last j bound
  have different : n + j ≠ slot := by
    rintro rfl
    exact busy free
  rw [Function.update_of_ne different, free]

theorem Owned.filling_update (owned : program.Owned state) {n j slot : Nat} {status : Taccess}
    (generator : state.generator = .filling n j) (other : state.access slot ≠ stateFilling) :
    j < program.blockSize ∧ ∀ i, j ≤ i → i < program.blockSize →
      Function.update state.access slot status (n + i) = stateFilling := by
  obtain ⟨inside, block⟩ := owned.filling n j generator
  refine ⟨inside, fun i lower upper => ?_⟩
  have filling := block i lower upper
  have different : n + i ≠ slot := by
    rintro rfl
    exact other filling
  rw [Function.update_of_ne different, filling]

theorem Owned.call (owned : program.Owned state) {n : Nat}
    (ordered : program.Ordered state (.call n)) (taken : call state n = some next) :
    program.Owned next := by
  obtain ⟨idle, rfl⟩ := call_eq_some.mp taken
  constructor
  · exact owned.running
  · exact owned.held
  · exact owned.alone
  · rintro m waiting
    cases waiting
    exact ordered idle
  · nofun

theorem Owned.look (owned : program.Owned state) (positive : 0 < program.blockSize)
    (taken : program.look state = some next) : program.Owned next := by
  obtain ⟨n, waiting, ⟨_, rfl⟩ | ⟨free, rfl⟩⟩ := look_eq_some.mp taken
  · exact owned
  · constructor
    · exact owned.running
    · intro consumer slot held
      simp only [writeBlock_apply]
      rw [if_neg]
      · exact owned.held consumer slot held
      · rintro ⟨lower, upper⟩
        have place := owned.waiting n waiting free (slot - n) (by omega)
        rw [Nat.add_sub_cancel' lower] at place
        exact owned.held_ne held (by rw [place]; exact program.notProcessing) rfl
    · exact owned.alone
    · nofun
    · rintro m j generator
      cases generator
      refine ⟨positive, fun i _ bound => ?_⟩
      simp only [writeBlock_apply]
      exact if_pos (by omega)

theorem Owned.set (owned : program.Owned state) (taken : program.set state = some next) :
    program.Owned next := by
  cases generator : state.generator with
  | idle => simp [BlockProgram.set, generator] at taken
  | waiting n => simp [BlockProgram.set, generator] at taken
  | filling n j =>
      obtain ⟨bound, block⟩ := owned.filling n j generator
      have here := block j (Nat.le_refl j) bound
      obtain rfl := (set_eq_some generator here).mp taken
      constructor
      · exact owned.running
      · intro consumer slot held
        have different : slot ≠ n + j := owned.held_ne held (by rw [here]; decide)
        simp only [Function.update_of_ne different]
        exact owned.held consumer slot held
      · exact owned.alone
      · intro m waiting
        simp only at waiting
        split at waiting <;> cases waiting
      · intro m k generator
        simp only at generator
        split at generator
        · rename_i more
          cases generator
          refine ⟨more, fun i lower upper => ?_⟩
          have later : n + i ≠ n + j := by omega
          simp only [Function.update_of_ne later]
          exact block i (by omega) upper
        · cases generator

theorem Owned.take (owned : program.Owned state) {consumer slot : Nat}
    (taken : take state consumer slot = some next) : program.Owned next := by
  obtain ⟨idle, ⟨_, rfl⟩ | ⟨filled, rfl⟩⟩ := take_eq_some.mp taken
  · exact owned
  · have notHeld {other place : Nat} (held : state.held other = some place) : place ≠ slot :=
      owned.held_ne held (by rw [filled]; decide)
    constructor
    · exact owned.running
    · intro other place held
      by_cases same : other = consumer
      · simp only [same, Function.update_self, Option.some.injEq] at held
        simp only [held, Function.update_self]
      · simp only [Function.update_of_ne same] at held
        simp only [Function.update_of_ne (notHeld held)]
        exact owned.held other place held
    · intro first second place firstHeld secondHeld
      by_cases one : first = consumer
      · subst one
        simp only [Function.update_self, Option.some.injEq] at firstHeld
        by_contra different
        simp only [Function.update_of_ne (Ne.symm different)] at secondHeld
        exact notHeld secondHeld firstHeld.symm
      · simp only [Function.update_of_ne one] at firstHeld
        have two : second ≠ consumer := by
          rintro rfl
          simp only [Function.update_self, Option.some.injEq] at secondHeld
          exact notHeld firstHeld secondHeld.symm
        simp only [Function.update_of_ne two] at secondHeld
        exact owned.alone first second place firstHeld secondHeld
    · intro n waiting last
      have elsewhere : lastSlot n program.blockSize ≠ slot := by
        intro same
        simp only [same, Function.update_self] at last
        exact program.notProcessing last.symm
      have busy : state.access slot ≠ program.waitStatus := by
        rw [filled]
        exact program.notFilled.symm
      exact owned.waiting_update waiting busy elsewhere last
    · intro n j generator
      exact owned.filling_update generator (by rw [filled]; decide)

theorem Owned.release (owned : program.Owned state) {consumer : Nat}
    (ordered : program.Ordered state (.release consumer))
    (taken : program.release state consumer = some next) : program.Owned next := by
  cases held : state.held consumer with
  | none => simp [BlockProgram.release, held] at taken
  | some slot =>
      have processing := owned.held consumer slot held
      obtain rfl := (release_eq_some held processing).mp taken
      have others {other place : Nat}
          (stillHeld : Function.update state.held consumer none other = some place) :
          other ≠ consumer ∧ state.held other = some place := by
        by_cases same : other = consumer
        · simp [same] at stillHeld
        · exact ⟨same, by rwa [Function.update_of_ne same] at stillHeld⟩
      constructor
      · exact owned.running
      · intro other place stillHeld
        obtain ⟨different, before⟩ := others stillHeld
        have elsewhere : place ≠ slot := by
          rintro rfl
          exact different (owned.alone other consumer place before held)
        simp only [Function.update_of_ne elsewhere]
        exact owned.held other place before
      · intro first second place firstHeld secondHeld
        exact owned.alone first second place (others firstHeld).2 (others secondHeld).2
      · intro n waiting last
        by_cases here : lastSlot n program.blockSize = slot
        · -- the last slot is released after the others
          subst here
          simp only [Function.update_self] at last
          intro j bound
          by_cases same : n + j = lastSlot n program.blockSize
          · simp only [same, Function.update_self, last]
          · simp only [Function.update_of_ne same]
            simp only [lastSlot] at same
            exact ordered n waiting held last j (by omega)
        · have busy : state.access slot ≠ program.waitStatus := by
            rw [processing]
            exact program.notProcessing.symm
          exact owned.waiting_update waiting busy here last
      · intro n j generator
        exact owned.filling_update generator (by rw [processing]; decide)

theorem Owned.step (owned : program.Owned state) (positive : 0 < program.blockSize)
    (ordered : program.Ordered state label) (taken : program.step state label = some next) :
    program.Owned next := by
  simp only [BlockProgram.step, owned.running, Bool.false_eq_true, if_false] at taken
  cases label with
  | call n => exact owned.call ordered taken
  | look => exact owned.look positive taken
  | set => exact owned.set taken
  | take consumer slot => exact owned.take taken
  | release consumer => exact owned.release ordered taken

section Runs

variable {access : Nat → Taccess} {labels : List BlockSection}

theorem owned_of_along (positive : 0 < program.blockSize)
    (ran : Transition.run program.step (start access) labels = some state)
    (along : Transition.Along program.step program.Ordered (start access) labels) :
    program.Owned state := by
  refine Transition.run_rule (fun past current =>
    Transition.Along program.step program.Ordered (start access) past → program.Owned current)
    (fun _ => Owned.start access) ?_ ran along
  intro past label current next before owned taken along
  obtain ⟨earlier, now⟩ := Transition.along_append_singleton.mp along
  exact (owned earlier).step positive (now current before) taken

/-- In a run of ordered steps the looks of the run itself steal nothing. -/
theorem safe_of_along (positive : 0 < program.blockSize)
    (along : Transition.Along program.step program.Ordered (start access) labels) :
    Transition.Along program.step program.Safe (start access) labels := by
  induction labels using List.reverseRecOn with
  | nil => trivial
  | append_singleton past label ih =>
      have earlier := (Transition.along_append_singleton.mp along).1
      refine Transition.along_append_singleton.mpr ⟨ih earlier, fun current ran => ?_⟩
      exact (owned_of_along positive ran earlier).safe label

theorem Owned.ordered (owned : program.Owned state) (positive : 0 < program.blockSize)
    (later : ∀ next, program.step state label = some next → program.Safe next .look) :
    program.Ordered state label := by
  simp only [BlockProgram.step, owned.running, Bool.false_eq_true, if_false] at later
  cases label with
  | call n =>
      intro idle free
      refine later _ (call_eq_some.mpr ⟨idle, rfl⟩) n rfl ?_
      simp [waitForStatusBlock, free]
  | release consumer =>
      intro n waiting held frees j bound
      have processing := owned.held consumer _ held
      have all := later _ ((release_eq_some held processing).mpr rfl) n waiting
        (by simp [waitForStatusBlock, frees]) j (by omega)
      have different : n + j ≠ lastSlot n program.blockSize := by
        rw [lastSlot]
        omega
      simpa only [Function.update_of_ne different] using all
  | look => trivial
  | set => trivial
  | take consumer slot => trivial

/-- Every step of the run is safe, and so is a look of the generator between two
of them or after the last. -/
def KeepsSlots (program : BlockProgram) (access : Nat → Taccess) (labels : List BlockSection) :
    Prop :=
  Transition.Along program.step program.Safe (start access) labels ∧
    ∀ past, past <+: labels →
      Transition.Along program.step program.Safe (start access) (past ++ [.look])

theorem keepsSlots_of_ordered (positive : 0 < program.blockSize)
    (along : Transition.Along program.step program.Ordered (start access) labels) :
    program.KeepsSlots access labels := by
  refine ⟨safe_of_along positive along, fun past before => ?_⟩
  have ordered := Transition.along_of_prefix before along
  refine Transition.along_append_singleton.mpr ⟨safe_of_along positive ordered, ?_⟩
  intro current ran
  exact (owned_of_along positive ran ordered).safe .look

/-- Nothing is stolen exactly if the last slot of each block that the generator
waits for is the last one to have the awaited status. -/
theorem block_ownership_iff (positive : 0 < program.blockSize) (access : Nat → Taccess)
    (labels : List BlockSection) : program.KeepsSlots access labels ↔
      Transition.Along program.step program.Ordered (start access) labels := by
  constructor
  · rintro ⟨-, safe⟩
    induction labels using List.reverseRecOn with
    | nil => trivial
    | append_singleton past label ih =>
        have earlier := ih fun shorter before =>
          safe shorter (before.trans (List.prefix_append past [label]))
        refine Transition.along_append_singleton.mpr ⟨earlier, fun current ran => ?_⟩
        apply (owned_of_along positive ran earlier).ordered positive
        intro next taken
        refine (Transition.along_append_singleton.mp
          (safe (past ++ [label]) (List.prefix_refl _))).2 next ?_
        rw [Transition.run_append_singleton, ran, Option.bind_some, taken]
  · exact keepsSlots_of_ordered positive

def pairProgram : BlockProgram :=
  ⟨2, statusFree, statusFilled, statusFree, by decide, by decide⟩

theorem block_ownership_in_order : pairProgram.KeepsSlots (fun _ => statusFilled)
    [.take 0 0, .take 1 1, .call 0, .release 0, .release 1, .look] := by
  refine (block_ownership_iff (by decide) _ _).mpr ?_
  have busy : stateProcessing ≠ statusFree := by decide
  simp [Transition.Along, BlockProgram.step, BlockProgram.take, BlockProgram.call,
    BlockProgram.release, BlockProgram.look, start, Ordered, pairProgram, lastSlot, busy]

def outOfOrder : List BlockSection := [.take 0 0, .take 1 1, .call 0, .release 1]

/-- The second slot is released first: the first one is filled while a consumer
has it, whose release is then a code error. -/
theorem block_ownership_stolen :
    ¬Transition.Along pairProgram.step pairProgram.Safe (start fun _ => statusFilled)
      (outOfOrder ++ [.look]) ∧
    ∃ final, Transition.run pairProgram.step (start fun _ => statusFilled)
      (outOfOrder ++ [.look, .release 0]) = some final ∧ final.exited = true := by
  constructor
  · intro along
    have stolen := (Transition.along_append_singleton.mp along).2 _ rfl 0 rfl rfl 0 (by decide)
    exact absurd stolen (by decide)
  · exact ⟨_, rfl, rfl⟩

end Runs

end BlockProgram

end RockAMali
