import RockAMali.Library.Routine
import RockAMali.Pipelines

/-!
The data accesses of the threads, one sample at a time. The threads may take
their steps in the middle of each other's accesses, and the program still does
what it does with whole accesses.
-/

namespace RockAMali

open Routine

section Semantics

variable {ι κ τ σ : Type*}

/-! What an access hands over when it is done: the image of the kernel to the
processor, or a frame to the file or the network. -/

inductive Outcome (α β : Type*)
  | filled
  | processed (image : β)
  | copied
  | stored (frame : α)
  | storedR (result : β)
  | sent (frame : α)

def Outcome.record {α β : Type*} (outcome : Outcome α β) (index : Index) (data : Data α β)
    (image : β) : Data α β × β :=
  match outcome with
  | .filled | .copied => (data, image)
  | .processed result =>
      ({ data with
          reads := Function.update data.reads index.n
            (data.reads index.n ++ [(index.i, data.images index.n)]) }, result)
  | .stored frame => ({ data with stored := data.stored ++ [frame] }, image)
  | .storedR result => ({ data with storedR := data.storedR ++ [result] }, image)
  | .sent frame => ({ data with sent := data.sent ++ [frame] }, image)

structure Routines (ι κ τ σ : Type*) where
  fill : Nat → Routine ι τ Unit
  kernel : Routine ι τ (κ → σ)
  copy : (κ → σ) → Routine κ σ Unit
  store : Routine ι τ (ι → τ)
  storeR : Routine κ σ (κ → σ)
  send : Routine ι τ (ι → τ)

inductive Pending (ι κ τ σ : Type*)
  | idle
  | images (rest : Routine ι τ (Outcome (ι → τ) (κ → σ)))
  | results (rest : Routine κ σ (Outcome (ι → τ) (κ → σ)))

def Pending.onImages : Pending ι κ τ σ → Option (Routine ι τ (Outcome (ι → τ) (κ → σ)))
  | .images rest => some rest
  | _ => none

def Pending.onResults : Pending ι κ τ σ → Option (Routine κ σ (Outcome (ι → τ) (κ → σ)))
  | .results rest => some rest
  | _ => none

def Pending.ring : Pending ι κ τ σ → Option Ring
  | .idle => none
  | .images _ => some .images
  | .results _ => some .results

def Hold.pending (hold : Hold) (routines : Routines ι κ τ σ) (index : Index) (image : κ → σ) :
    Pending ι κ τ σ :=
  match hold.action, hold.ring with
  | .fill, _ => .images ((routines.fill index.i).map fun _ => .filled)
  | .kernel, _ => .images (routines.kernel.map .processed)
  | .copy, _ => .results ((routines.copy image).map fun _ => .copied)
  | .store, .images => .images (routines.store.map .stored)
  | .store, .results => .results (routines.storeR.map .storedR)
  | .send, _ => .images (routines.send.map .sent)

structure SampleState (ι κ τ σ : Type*) where
  state : State (ι → τ) (κ → σ)
  pending : Nat → Pending ι κ τ σ

variable [DecidableEq ι] [DecidableEq κ]

structure Routines.Computes (routines : Routines ι κ τ σ) (frame : Nat → ι → τ)
    (kernel : (ι → τ) → κ → σ) : Prop where
  fill : ∀ i array, (routines.fill i).run array = (frame i, ())
  kernel : ∀ array, routines.kernel.run array = (array, kernel array)
  copy : ∀ image array, (routines.copy image).run array = (image, ())
  store : ∀ array, routines.store.run array = (array, array)
  storeR : ∀ array, routines.storeR.run array = (array, array)
  send : ∀ array, routines.send.run array = (array, array)

variable (routines : Routines ι κ τ σ) (program : Program) (sample : SampleState ι κ τ σ) (id : Nat)

def SampleState.withPending (pending : Pending ι κ τ σ) : SampleState ι κ τ σ :=
  { sample with pending := Function.update sample.pending id pending }

def SampleState.finish (outcome : Outcome (ι → τ) (κ → σ)) : SampleState ι κ τ σ :=
  let own := sample.state.locals id
  let recorded := outcome.record own.index sample.state.data own.image
  { state := { sample.state with
      data := recorded.1
      locals := Function.update sample.state.locals id
        { own with phase := .set, image := recorded.2 } }
    pending := Function.update sample.pending id .idle }

def SampleState.perform (hold : Hold) : SampleState ι κ τ σ :=
  let own := sample.state.locals id
  let data := sample.state.data
  match sample.pending id with
  | .idle => sample.withPending id (hold.pending routines own.index own.image)
  | .images (.done outcome) | .results (.done outcome) => sample.finish id outcome
  | .images rest =>
      let (left, image) := rest.step (data.images own.index.n)
      { state := { sample.state with
          data := { data with images := Function.update data.images own.index.n image } }
        pending := Function.update sample.pending id (.images left) }
  | .results rest =>
      let (left, image) := rest.step (data.results own.index.n)
      { state := { sample.state with
          data := { data with results := Function.update data.results own.index.n image } }
        pending := Function.update sample.pending id (.results left) }

def Program.sampleStep : SampleState ι κ τ σ :=
  if sample.state.exited then sample
  else
    match program.current sample.state id with
    | none => sample
    | some hold =>
        match (sample.state.locals id).phase with
        | .wait => { sample with state := sample.state.acquire id hold }
        | .access => sample.perform routines id hold
        | .set => { sample with state := program.release sample.state id hold }

structure Program.SampleInitial : Prop where
  state : program.Initial sample.state
  pending : ∀ id, sample.pending id = .idle

def Program.SampleNext (successor : SampleState ι κ τ σ) : Prop :=
  ∃ id < program.threads, successor = program.sampleStep routines sample id

def Program.SampleReachable : Prop :=
  Transition.Reachable program.SampleInitial (program.SampleNext routines) sample

def Program.begun (state : State (ι → τ) (κ → σ)) : Pending ι κ τ σ :=
  match program.current state id, (state.locals id).phase with
  | some hold, .access => hold.pending routines (state.locals id).index (state.locals id).image
  | _, _ => .idle

/-- The same run with whole accesses, where those that are not done have not
been made yet. -/
structure Program.Interleaves (state : State (ι → τ) (κ → σ)) : Prop where
  same : sample.state = { state with data := { state.data with
    images := sample.state.data.images, results := sample.state.data.results } }
  images : Interleaved sample.state.data.images state.data.images
    (fun id => (state.locals id).index.n)
    (fun id => (program.begun routines id state).onImages)
    (fun id => (sample.pending id).onImages)
  results : Interleaved sample.state.data.results state.data.results
    (fun id => (state.locals id).index.n)
    (fun id => (program.begun routines id state).onResults)
    (fun id => (sample.pending id).onResults)
  outside : ∀ id, program.threads ≤ id → sample.pending id = .idle

end Semantics

section Begun

variable {ι κ τ σ : Type*} {routines : Routines ι κ τ σ} {program : Program}
  {state : State (ι → τ) (κ → σ)} {id : Nat} {hold : Hold}

theorem Outcome.record_images {α β : Type*} (outcome : Outcome α β) (index : Index)
    (data : Data α β) (image : β) : (outcome.record index data image).1.images = data.images := by
  cases outcome <;> rfl

theorem Outcome.record_results {α β : Type*} (outcome : Outcome α β) (index : Index)
    (data : Data α β) (image : β) :
    (outcome.record index data image).1.results = data.results := by
  cases outcome <;> rfl

theorem Outcome.record_congr {α β : Type*} (outcome : Outcome α β) (index : Index)
    {data other : Data α β} (image : β) (reads : other.reads = data.reads)
    (stored : other.stored = data.stored) (storedR : other.storedR = data.storedR)
    (sent : other.sent = data.sent)
    (here : ∀ result, outcome = .processed result →
      other.images index.n = data.images index.n) :
    (outcome.record index other image).1 =
        { (outcome.record index data image).1 with
          images := other.images, results := other.results } ∧
      (outcome.record index other image).2 = (outcome.record index data image).2 := by
  cases other
  simp only at reads stored storedR sent here
  subst reads stored storedR sent
  cases outcome with
  | processed result => simp [Outcome.record, here result rfl]
  | filled | copied | stored | storedR | sent => simp [Outcome.record]

theorem Hold.pending_results [DecidableEq κ] {index : Index} {image : κ → σ}
    {whole : Routine κ σ (Outcome (ι → τ) (κ → σ))}
    (pending : hold.pending routines index image = .results whole) (array result : κ → σ) :
    (whole.run array).2 ≠ .processed result := by
  obtain ⟨ring, wait, held, set, action⟩ := hold
  cases action <;> cases ring <;> simp only [Hold.pending, Pending.results.injEq,
    reduceCtorEq] at pending <;> subst pending <;> simp [run_map]

def Hold.Matched (hold : Hold) : Prop :=
  match hold.action with
  | .fill | .kernel | .send => hold.ring = .images
  | .copy => hold.ring = .results
  | .store => True

def Program.Matched (program : Program) : Prop :=
  ∀ id, ∀ hold ∈ (program.thread id).iteration, hold.Matched

theorem Hold.Matched.ring (matched : hold.Matched) {index : Index} {image : κ → σ} :
    (hold.pending routines index image).ring = some hold.ring := by
  obtain ⟨ring, wait, held, set, action⟩ := hold
  cases action <;> cases ring <;> simp_all [Hold.Matched, Hold.pending, Pending.ring]

theorem Pending.onImages_of_ne {pending : Pending ι κ τ σ}
    (elsewhere : pending.ring ≠ some .images) : pending.onImages = none := by
  cases pending with
  | images => exact (elsewhere rfl).elim
  | idle | results => rfl

theorem Pending.onResults_of_ne {pending : Pending ι κ τ σ}
    (elsewhere : pending.ring ≠ some .results) : pending.onResults = none := by
  cases pending with
  | results => exact (elsewhere rfl).elim
  | idle | images => rfl

theorem Program.begun_access (current : program.current state id = some hold)
    (accessing : (state.locals id).phase = .access) :
    program.begun routines id state =
      hold.pending routines (state.locals id).index (state.locals id).image := by
  simp only [Program.begun, current, accessing]

theorem Program.begun_idle (elsewhere : (state.locals id).phase ≠ .access) :
    program.begun routines id state = .idle := by
  simp only [Program.begun]
  cases program.current state id with
  | none => rfl
  | some hold =>
      cases phase : (state.locals id).phase with
      | access => exact (elsewhere phase).elim
      | wait | set => rfl

theorem Program.begun_holds (matched : program.Matched) {ring : Ring}
    (busy : (program.begun routines id state).ring = some ring) :
    ∃ hold, program.current state id = some hold ∧ (state.locals id).phase = .access ∧
      hold.ring = ring := by
  simp only [Program.begun] at busy
  cases current : program.current state id with
  | none => simp [current, Pending.ring] at busy
  | some hold =>
      cases phase : (state.locals id).phase with
      | access =>
          have member := List.mem_of_getElem? (Program.current_some current).2
          simp only [current, phase, (matched id hold member).ring, Option.some.injEq] at busy
          exact ⟨hold, rfl, rfl, busy⟩
      | wait | set => simp [current, phase, Pending.ring] at busy

theorem Program.begun_congr {successor : State (ι → τ) (κ → σ)}
    (same : successor.locals id = state.locals id) :
    program.begun routines id successor = program.begun routines id state := by
  have current : program.current successor id = program.current state id :=
    Program.current_congr (by rw [same]) (by rw [same])
  simp only [Program.begun, current, same]

theorem select_update {γ : Type*} (select : Pending ι κ τ σ → γ)
    (before : Nat → Pending ι κ τ σ) (pending : Pending ι κ τ σ) :
    (fun other => select (Function.update before id pending other)) =
      Function.update (fun other => select (before other)) id (select pending) :=
  Function.comp_update select before id pending

theorem interleaved_congr {κ' σ' ρ : Type*} [DecidableEq κ'] {now before : Nat → κ' → σ'}
    {select : Pending ι κ τ σ → Option (Routine κ' σ' ρ)}
    {rest : Nat → Option (Routine κ' σ' ρ)} {successor : State (ι → τ) (κ → σ)}
    (free : rest id = none)
    (others : ∀ other, other ≠ id → successor.locals other = state.locals other)
    (interleaved : Interleaved now before (fun id => (state.locals id).index.n)
      (fun id => select (program.begun routines id state)) rest) :
    Interleaved now before (fun id => (successor.locals id).index.n)
      (fun id => select (program.begun routines id successor)) rest := by
  apply interleaved.congr
  intro other busy
  have different : other ≠ id := fun same => busy (same ▸ free)
  have locals := others other different
  exact ⟨by rw [locals], by rw [Program.begun_congr locals]⟩

theorem State.acquire_data : (state.acquire id hold).data = state.data := by
  simp only [State.acquire]
  split <;> rfl

theorem State.acquire_with (data : Data (ι → τ) (κ → σ)) :
    ({ state with data := data } : State (ι → τ) (κ → σ)).acquire id hold =
      { state.acquire id hold with data := data } := by
  simp only [State.acquire, State.place]
  split <;> rfl

theorem Program.release_data : (program.release state id hold).data = state.data := by
  simp only [Program.release]
  split <;> rfl

theorem Program.release_with (data : Data (ι → τ) (κ → σ)) :
    program.release { state with data := data } id hold =
      { program.release state id hold with data := data } := by
  simp only [Program.release, State.place]
  split <;> rfl

end Begun

section Step

variable {ι κ τ σ : Type*} [DecidableEq ι] [DecidableEq κ] {routines : Routines ι κ τ σ}
  {frame : Nat → ι → τ} {kernel : (ι → τ) → κ → σ} {program : Program}
  {sample : SampleState ι κ τ σ} {state : State (ι → τ) (κ → σ)} {id : Nat} {hold : Hold}
  {roster : Roster program}

theorem Hold.perform_onImages (computes : routines.Computes frame kernel) {index : Index}
    {data : Data (ι → τ) (κ → σ)} {image : κ → σ}
    {whole : Routine ι τ (Outcome (ι → τ) (κ → σ))}
    (pending : hold.pending routines index image = .images whole) :
    hold.perform frame kernel index data image =
      (whole.run (data.images index.n)).2.record index { data with
        images := Function.update data.images index.n (whole.run (data.images index.n)).1 }
        image := by
  obtain ⟨ring, wait, held, set, action⟩ := hold
  cases action <;> cases ring <;> simp only [Hold.pending, Pending.images.injEq,
    reduceCtorEq] at pending <;> subst pending <;>
    simp [Hold.perform, Outcome.record, run_map, computes.fill, computes.kernel, computes.store,
      computes.send]

theorem Hold.perform_onResults (computes : routines.Computes frame kernel) {index : Index}
    {data : Data (ι → τ) (κ → σ)} {image : κ → σ}
    {whole : Routine κ σ (Outcome (ι → τ) (κ → σ))}
    (pending : hold.pending routines index image = .results whole) :
    hold.perform frame kernel index data image =
      (whole.run (data.results index.n)).2.record index { data with
        results := Function.update data.results index.n (whole.run (data.results index.n)).1 }
        image := by
  obtain ⟨ring, wait, held, set, action⟩ := hold
  cases action <;> cases ring <;> simp only [Hold.pending, Pending.results.injEq,
    reduceCtorEq] at pending <;> subst pending <;>
    simp [Hold.perform, Outcome.record, run_map, computes.copy, computes.storeR]

namespace Program.Interleaves

variable (interleaves : program.Interleaves routines sample state)

include interleaves

theorem locals : sample.state.locals = state.locals := by
  rw [interleaves.same]

theorem bound (busy : sample.pending id ≠ .idle) : id < program.threads := by
  by_contra outside
  exact busy (interleaves.outside id (Nat.le_of_not_lt outside))

theorem begun_ring {ring : Ring} (busy : (sample.pending id).ring = some ring) :
    (program.begun routines id state).ring = some ring := by
  cases pending : sample.pending id with
  | idle => simp [pending, Pending.ring] at busy
  | images rest =>
      obtain ⟨whole, begun, _⟩ := interleaves.images.through id rest (by simp [pending,
        Pending.onImages])
      rw [pending] at busy
      rw [← busy]
      cases started : program.begun routines id state <;>
        simp_all [Pending.onImages, Pending.ring]
  | results rest =>
      obtain ⟨whole, begun, _⟩ := interleaves.results.through id rest (by simp [pending,
        Pending.onResults])
      rw [pending] at busy
      rw [← busy]
      cases started : program.begun routines id state <;>
        simp_all [Pending.onResults, Pending.ring]

theorem alone (invariant : roster.Invariant state) (matched : program.Matched)
    (bound : id < program.threads) (current : program.current state id = some hold)
    (accessing : (state.locals id).phase = .access) {other : Nat} (different : other ≠ id)
    (here : (state.locals other).index.n = (state.locals id).index.n) :
    (sample.pending other).ring ≠ some hold.ring := by
  intro busy
  have otherBound : other < program.threads := by
    apply interleaves.bound
    intro idle
    simp [idle, Pending.ring] at busy
  obtain ⟨otherHold, otherCurrent, otherAccessing, otherRing⟩ :=
    Program.begun_holds matched (interleaves.begun_ring busy)
  obtain ⟨_, _, occupied⟩ := invariant.occupied bound
    (⟨current, by simp [accessing], rfl⟩ : program.Holds state id hold (state.place id hold))
  exact different (occupied.alone other otherBound otherHold
    ⟨otherCurrent, by simp [otherAccessing], by simp only [State.place, otherRing, here]⟩)

theorem idle (elsewhere : (state.locals id).phase ≠ .access) : sample.pending id = .idle := by
  have started : program.begun routines id state = .idle := Program.begun_idle elsewhere
  cases pending : sample.pending id with
  | idle => rfl
  | images rest =>
      have busy := interleaves.begun_ring (by rw [pending]; rfl)
      simp [started, Pending.ring] at busy
  | results rest =>
      have busy := interleaves.begun_ring (by rw [pending]; rfl)
      simp [started, Pending.ring] at busy

theorem sections {next successor : State (ι → τ) (κ → σ)} (idle : sample.pending id = .idle)
    (others : ∀ other, other ≠ id → successor.locals other = state.locals other)
    (data : successor.data = state.data)
    (same : next = { successor with data := sample.state.data }) :
    program.Interleaves routines { sample with state := next } successor := by
  subst same
  constructor
  · rw [data, interleaves.same]
  · simp only [data]
    exact interleaved_congr (by simp [idle, Pending.onImages]) others interleaves.images
  · simp only [data]
    exact interleaved_congr (by simp [idle, Pending.onResults]) others interleaves.results
  · exact interleaves.outside

theorem begins (invariant : roster.Invariant state) (matched : program.Matched)
    (bound : id < program.threads) (current : program.current state id = some hold)
    (accessing : (state.locals id).phase = .access) (idle : sample.pending id = .idle) :
    program.Interleaves routines (sample.withPending id
      (hold.pending routines (state.locals id).index (state.locals id).image)) state := by
  have begun : program.begun routines id state =
      hold.pending routines (state.locals id).index (state.locals id).image :=
    Program.begun_access current accessing
  have member := List.mem_of_getElem? (Program.current_some current).2
  have ring : (hold.pending routines (state.locals id).index (state.locals id).image).ring =
      some hold.ring := (matched id hold member).ring
  have alone : ∀ other, other ≠ id →
      (state.locals other).index.n = (state.locals id).index.n →
        (sample.pending other).ring ≠ some hold.ring :=
    fun _ different here => interleaves.alone invariant matched bound current accessing
      different here
  generalize hold.pending routines (state.locals id).index (state.locals id).image = pending
    at begun ring
  have outside : ∀ other, program.threads ≤ other →
      Function.update sample.pending id pending other = .idle := by
    intro other beyond
    rw [Function.update_of_ne (by omega)]
    exact interleaves.outside other beyond
  cases pending with
  | idle => simp [Pending.ring] at ring
  | images whole =>
      refine ⟨interleaves.same, ?_, ?_, outside⟩
      · simp only [SampleState.withPending, select_update Pending.onImages]
        apply interleaves.images.starts (by simp [idle, Pending.onImages])
        · simp [begun, Pending.onImages]
        · intro other different here
          apply Pending.onImages_of_ne
          rw [Option.some.inj ring]
          exact alone other different here
      · simp only [SampleState.withPending, select_update Pending.onResults]
        rw [Function.update_eq_self_iff.mpr (by simp [idle, Pending.onResults])]
        exact interleaves.results
  | results whole =>
      refine ⟨interleaves.same, ?_, ?_, outside⟩
      · simp only [SampleState.withPending, select_update Pending.onImages]
        rw [Function.update_eq_self_iff.mpr (by simp [idle, Pending.onImages])]
        exact interleaves.images
      · simp only [SampleState.withPending, select_update Pending.onResults]
        apply interleaves.results.starts (by simp [idle, Pending.onResults])
        · simp [begun, Pending.onResults]
        · intro other different here
          apply Pending.onResults_of_ne
          rw [Option.some.inj ring]
          exact alone other different here

theorem accesses (invariant : roster.Invariant state) (matched : program.Matched) {ring : Ring}
    (busy : (sample.pending id).ring = some ring) :
    ∃ hold, program.current state id = some hold ∧ (state.locals id).phase = .access ∧
      ∀ other, other ≠ id → (state.locals other).index.n = (state.locals id).index.n →
        (sample.pending other).ring ≠ some ring := by
  obtain ⟨hold, current, accessing, rfl⟩ :=
    Program.begun_holds matched (interleaves.begun_ring busy)
  have bound : id < program.threads := by
    apply interleaves.bound
    intro idle
    simp [idle, Pending.ring] at busy
  exact ⟨hold, current, accessing, fun _ different here =>
    interleaves.alone invariant matched bound current accessing different here⟩

theorem outside_update {ring : Ring} (busy : (sample.pending id).ring = some ring)
    (pending : Pending ι κ τ σ) (other : Nat) (beyond : program.threads ≤ other) :
    Function.update sample.pending id pending other = .idle := by
  rw [Function.update_of_ne]
  · exact interleaves.outside other beyond
  · rintro rfl
    simp [interleaves.outside other beyond, Pending.ring] at busy

theorem proceeds_images (invariant : roster.Invariant state) (matched : program.Matched)
    {rest : Routine ι τ (Outcome (ι → τ) (κ → σ))} (pending : sample.pending id = .images rest) :
    let n := (sample.state.locals id).index.n
    let left := rest.step (sample.state.data.images n)
    program.Interleaves routines
      { state := { sample.state with
          data := { sample.state.data with
            images := Function.update sample.state.data.images n left.2 } }
        pending := Function.update sample.pending id (.images left.1) } state := by
  intro n left
  have here : (state.locals id).index.n = n := by rw [← interleaves.locals]
  have busy : (sample.pending id).ring = some .images := by rw [pending]; rfl
  obtain ⟨hold, _, _, alone⟩ := interleaves.accesses invariant matched busy
  constructor
  · rw [interleaves.same]
  · simp only [select_update Pending.onImages]
    have going : (sample.pending id).onImages = some rest := by rw [pending]; rfl
    have proceeds := interleaves.images.proceeds going
      fun other different here => Pending.onImages_of_ne (alone other different here)
    rwa [here] at proceeds
  · simp only [select_update Pending.onResults]
    rw [Function.update_eq_self_iff.mpr (by simp [pending, Pending.onResults])]
    exact interleaves.results
  · exact interleaves.outside_update busy _

theorem proceeds_results (invariant : roster.Invariant state) (matched : program.Matched)
    {rest : Routine κ σ (Outcome (ι → τ) (κ → σ))} (pending : sample.pending id = .results rest) :
    let n := (sample.state.locals id).index.n
    let left := rest.step (sample.state.data.results n)
    program.Interleaves routines
      { state := { sample.state with
          data := { sample.state.data with
            results := Function.update sample.state.data.results n
              left.2 } }
        pending := Function.update sample.pending id (.results left.1) } state := by
  intro n left
  have here : (state.locals id).index.n = n := by rw [← interleaves.locals]
  have busy : (sample.pending id).ring = some .results := by rw [pending]; rfl
  obtain ⟨hold, _, _, alone⟩ := interleaves.accesses invariant matched busy
  constructor
  · rw [interleaves.same]
  · simp only [select_update Pending.onImages]
    rw [Function.update_eq_self_iff.mpr (by simp [pending, Pending.onImages])]
    exact interleaves.images
  · simp only [select_update Pending.onResults]
    have going : (sample.pending id).onResults = some rest := by rw [pending]; rfl
    have proceeds := interleaves.results.proceeds going
      fun other different here => Pending.onResults_of_ne (alone other different here)
    rwa [here] at proceeds
  · exact interleaves.outside_update busy _

theorem ends_images (computes : routines.Computes frame kernel)
    (invariant : roster.Invariant state) (matched : program.Matched)
    {outcome : Outcome (ι → τ) (κ → σ)} (pending : sample.pending id = .images (.done outcome)) :
    program.Interleaves routines (sample.finish id outcome)
      (program.step frame kernel state id) := by
  have busy : (sample.pending id).ring = some .images := by rw [pending]; rfl
  obtain ⟨hold, current, accessing, alone⟩ := interleaves.accesses invariant matched busy
  have done : (sample.pending id).onImages = some (.done outcome) := by rw [pending]; rfl
  obtain ⟨⟨whole, begun, runs⟩, after⟩ := interleaves.images.ends done
    fun other different here => Pending.onImages_of_ne (alone other different here)
  rw [Program.begun_access current accessing] at begun
  have started : hold.pending routines (state.locals id).index (state.locals id).image =
      .images whole := by
    cases shape : hold.pending routines (state.locals id).index (state.locals id).image <;>
      simp_all [Pending.onImages]
  let left : Data (ι → τ) (κ → σ) := { state.data with
    images := Function.update state.data.images (state.locals id).index.n
      (sample.state.data.images (state.locals id).index.n) }
  have performed : hold.perform frame kernel (state.locals id).index state.data
      (state.locals id).image =
        outcome.record (state.locals id).index left (state.locals id).image := by
    rw [Hold.perform_onImages computes started, runs]
  have same : sample.state.data = { left with
      images := sample.state.data.images, results := sample.state.data.results } := by
    rw [interleaves.same]
  obtain ⟨data, image⟩ : _ ∧ (outcome.record (state.locals id).index sample.state.data
      (state.locals id).image).2 = (outcome.record (state.locals id).index left
        (state.locals id).image).2 :=
    outcome.record_congr (state.locals id).index (state.locals id).image (by rw [same])
      (by rw [same]) (by rw [same]) (by rw [same]) (by simp [left])
  have others : ∀ other, other ≠ id →
      (state.perform frame kernel id hold).locals other = state.locals other :=
    fun other different => Function.update_of_ne different _ _
  rw [Program.step_access invariant.exited current accessing]
  have images : (state.perform frame kernel id hold).data.images = left.images := by
    simp only [State.perform, performed, Outcome.record_images]
  have results : (state.perform frame kernel id hold).data.results = state.data.results := by
    simp only [State.perform, performed, Outcome.record_results, left]
  constructor
  · simp only [SampleState.finish, State.perform, performed, interleaves.locals, data, image]
    rw [interleaves.same]
  · simp only [SampleState.finish, select_update Pending.onImages, Outcome.record_images, images]
    exact interleaved_congr (Function.update_self id _ _) others after
  · simp only [SampleState.finish, select_update Pending.onResults, Outcome.record_results,
      results]
    rw [Function.update_eq_self_iff.mpr (by simp [pending, Pending.onResults])]
    exact interleaved_congr (by simp [pending, Pending.onResults]) others interleaves.results
  · exact interleaves.outside_update busy _

theorem ends_results (computes : routines.Computes frame kernel)
    (invariant : roster.Invariant state) (matched : program.Matched)
    {outcome : Outcome (ι → τ) (κ → σ)}
    (pending : sample.pending id = .results (.done outcome)) :
    program.Interleaves routines (sample.finish id outcome)
      (program.step frame kernel state id) := by
  have busy : (sample.pending id).ring = some .results := by rw [pending]; rfl
  obtain ⟨hold, current, accessing, alone⟩ := interleaves.accesses invariant matched busy
  have done : (sample.pending id).onResults = some (.done outcome) := by rw [pending]; rfl
  obtain ⟨⟨whole, begun, runs⟩, after⟩ := interleaves.results.ends done
    fun other different here => Pending.onResults_of_ne (alone other different here)
  rw [Program.begun_access current accessing] at begun
  have started : hold.pending routines (state.locals id).index (state.locals id).image =
      .results whole := by
    cases shape : hold.pending routines (state.locals id).index (state.locals id).image <;>
      simp_all [Pending.onResults]
  let left : Data (ι → τ) (κ → σ) := { state.data with
    results := Function.update state.data.results (state.locals id).index.n
      (sample.state.data.results (state.locals id).index.n) }
  have performed : hold.perform frame kernel (state.locals id).index state.data
      (state.locals id).image =
        outcome.record (state.locals id).index left (state.locals id).image := by
    rw [Hold.perform_onResults computes started, runs]
  have elsewhere (result : κ → σ) : outcome ≠ .processed result := by
    have never := Hold.pending_results started
      (state.data.results (state.locals id).index.n) result
    rwa [runs] at never
  have same : sample.state.data = { left with
      images := sample.state.data.images, results := sample.state.data.results } := by
    rw [interleaves.same]
  obtain ⟨data, image⟩ : _ ∧ (outcome.record (state.locals id).index sample.state.data
      (state.locals id).image).2 = (outcome.record (state.locals id).index left
        (state.locals id).image).2 :=
    outcome.record_congr (state.locals id).index (state.locals id).image (by rw [same])
      (by rw [same]) (by rw [same]) (by rw [same])
      fun result processed => (elsewhere result processed).elim
  have others : ∀ other, other ≠ id →
      (state.perform frame kernel id hold).locals other = state.locals other :=
    fun other different => Function.update_of_ne different _ _
  rw [Program.step_access invariant.exited current accessing]
  have images : (state.perform frame kernel id hold).data.images = state.data.images := by
    simp only [State.perform, performed, Outcome.record_images, left]
  have results : (state.perform frame kernel id hold).data.results = left.results := by
    simp only [State.perform, performed, Outcome.record_results]
  constructor
  · simp only [SampleState.finish, State.perform, performed, interleaves.locals, data, image]
    rw [interleaves.same]
  · simp only [SampleState.finish, select_update Pending.onImages, Outcome.record_images, images]
    rw [Function.update_eq_self_iff.mpr (by simp [pending, Pending.onImages])]
    exact interleaved_congr (by simp [pending, Pending.onImages]) others interleaves.images
  · simp only [SampleState.finish, select_update Pending.onResults, Outcome.record_results,
      results]
    exact interleaved_congr (Function.update_self id _ _) others after
  · exact interleaves.outside_update busy _

theorem performs (computes : routines.Computes frame kernel)
    (invariant : roster.Invariant state) (matched : program.Matched)
    (bound : id < program.threads) (current : program.current state id = some hold)
    (accessing : (state.locals id).phase = .access) :
    program.Interleaves routines (sample.perform routines id hold) state ∨
      program.Interleaves routines (sample.perform routines id hold)
        (program.step frame kernel state id) := by
  simp only [SampleState.perform]
  split
  · rename_i idle
    rw [interleaves.locals]
    exact Or.inl (interleaves.begins invariant matched bound current accessing idle)
  · rename_i pending
    exact Or.inr (interleaves.ends_images computes invariant matched pending)
  · rename_i pending
    exact Or.inr (interleaves.ends_results computes invariant matched pending)
  · rename_i pending
    exact Or.inl (interleaves.proceeds_images invariant matched pending)
  · rename_i pending
    exact Or.inl (interleaves.proceeds_results invariant matched pending)

end Program.Interleaves

theorem Program.Interleaves.step (interleaves : program.Interleaves routines sample state)
    (computes : routines.Computes frame kernel) (invariant : roster.Invariant state)
    (matched : program.Matched) (bound : id < program.threads) :
    program.Interleaves routines (program.sampleStep routines sample id) state ∨
      program.Interleaves routines (program.sampleStep routines sample id)
        (program.step frame kernel state id) := by
  have exited : sample.state.exited = false := by
    rw [interleaves.same]
    exact invariant.exited
  have currents : program.current sample.state id = program.current state id :=
    Program.current_congr (by rw [interleaves.locals]) (by rw [interleaves.locals])
  simp only [Program.sampleStep, exited, Bool.false_eq_true, if_false, currents]
  cases current : program.current state id with
  | none => exact Or.inl interleaves
  | some hold =>
      rw [interleaves.locals]
      have others : ∀ other, other ≠ id →
          (program.step frame kernel state id).locals other = state.locals other := by
        intro other different
        rcases program.step_cases frame kernel id invariant.exited with idle | ⟨_, _, step⟩
        · rw [idle]
        · rcases step with ⟨_, _, taken⟩ | ⟨_, taken⟩ | ⟨_, _, taken⟩ | ⟨_, _, taken⟩ <;>
            simp [taken, different, State.perform]
      have same : sample.state = { state with data := sample.state.data } := by
        rw [interleaves.same]
      cases phase : (state.locals id).phase with
      | access => exact interleaves.performs computes invariant matched bound current phase
      | wait =>
          right
          have whole : program.step frame kernel state id = state.acquire id hold := by
            simp only [Program.step, invariant.exited, Bool.false_eq_true, if_false, current, phase]
          rw [whole] at others ⊢
          refine interleaves.sections (interleaves.idle (by simp [phase])) others
            State.acquire_data ?_
          exact (congrArg (State.acquire · id hold) same).trans (State.acquire_with _)
      | set =>
          right
          have whole : program.step frame kernel state id = program.release state id hold := by
            simp only [Program.step, invariant.exited, Bool.false_eq_true, if_false, current, phase]
          rw [whole] at others ⊢
          refine interleaves.sections (interleaves.idle (by simp [phase])) others
            Program.release_data ?_
          exact (congrArg (program.release · id hold) same).trans (Program.release_with _)

theorem Program.SampleInitial.interleaves (first : program.SampleInitial sample) :
    program.Interleaves routines sample sample.state := by
  have idle : ∀ id, sample.pending id = .idle := first.pending
  constructor
  · rfl
  · constructor
    · exact fun _ _ => rfl
    · intro id routine found
      simp [idle, Pending.onImages] at found
  · constructor
    · exact fun _ _ => rfl
    · intro id routine found
      simp [idle, Pending.onResults] at found
  · exact fun id _ => idle id

theorem Program.exists_interleaves (roster : Roster program)
    (computes : routines.Computes frame kernel) (matched : program.Matched)
    (reachable : program.SampleReachable routines sample) :
    ∃ state, program.Reachable frame kernel state ∧
      program.Interleaves routines sample state := by
  refine Transition.Reachable.related ?_ ?_ reachable
  · intro sample first
    exact ⟨sample.state, first.state, first.interleaves⟩
  · rintro sample _ state reached interleaves ⟨id, bound, rfl⟩
    have invariant := roster.invariant_of_reachable reached
    rcases interleaves.step computes invariant matched bound with same | stepped
    · exact Or.inl same
    · exact Or.inr ⟨_, ⟨id, bound, rfl⟩, stepped⟩

structure SampleState.Agrees (sample : SampleState ι κ τ σ) (state : State (ι → τ) (κ → σ)) :
    Prop where
  access : sample.state.access = state.access
  locals : sample.state.locals = state.locals
  exited : sample.state.exited = state.exited
  reads : sample.state.data.reads = state.data.reads
  stored : sample.state.data.stored = state.data.stored
  storedR : sample.state.data.storedR = state.data.storedR
  sent : sample.state.data.sent = state.data.sent
  images : ∀ slot, (∀ id, (sample.pending id).ring = some .images →
    (sample.state.locals id).index.n ≠ slot) →
      sample.state.data.images slot = state.data.images slot
  results : ∀ slot, (∀ id, (sample.pending id).ring = some .results →
    (sample.state.locals id).index.n ≠ slot) →
      sample.state.data.results slot = state.data.results slot

theorem Program.Interleaves.agrees (interleaves : program.Interleaves routines sample state) :
    sample.Agrees state := by
  have same := interleaves.same
  have locals := interleaves.locals
  constructor
  · rw [same]
  · exact locals
  · rw [same]
  · rw [same]
  · rw [same]
  · rw [same]
  · rw [same]
  · intro slot free
    apply interleaves.images.untouched
    intro id here
    apply Pending.onImages_of_ne
    intro busy
    exact free id busy (by rw [locals, here])
  · intro slot free
    apply interleaves.results.untouched
    intro id here
    apply Pending.onResults_of_ne
    intro busy
    exact free id busy (by rw [locals, here])

end Step

theorem DataProcessor.matched {waitStatus setStatus waitStatusR setStatusR : Taccess} :
    ∀ hold ∈ DataProcessor.iteration waitStatus setStatus waitStatusR setStatusR,
      hold.Matched := by
  simp [DataProcessor.iteration, Hold.Matched]

theorem MultiThread.matched {program : Program} (known : MultiThread program) :
    program.Matched := by
  cases known with
  | process =>
      rintro (_ | _ | id)
      · simp [RockAMali.process, DataGenerator.iteration, Hold.Matched]
      · simp [RockAMali.process, DataStore.iteration, Hold.Matched]
      · exact DataProcessor.matched
  | receiveOnly | receive =>
      rintro (_ | _ | _ | id)
      · simp [RockAMali.receive, DataReceive.iteration, Hold.Matched]
      · simp [RockAMali.receive, DataStore.iteration, Hold.Matched]
      · simp [RockAMali.receive, DataStore.iteration, Hold.Matched]
      · exact DataProcessor.matched
  | send =>
      rintro (_ | _ | id)
      · simp [RockAMali.send, DataGenerator.iteration, Hold.Matched]
      · simp [RockAMali.send, DataSend.iteration, Hold.Matched]
      · simp [RockAMali.send]

def Routines.loops {width widthR : Nat} {τ σ : Type*} (frame : Nat → Fin width → τ)
    (kernel : (Fin width → τ) → Fin widthR → σ) :
    Routines (Fin width) (Fin widthR) τ σ where
  fill i := writeEach (frame i) () (List.finRange width)
  kernel := readEach kernel (frame 0) (List.finRange width)
  copy image := writeEach image () (List.finRange widthR)
  store := readEach id (frame 0) (List.finRange width)
  storeR := readEach id (kernel (frame 0)) (List.finRange widthR)
  send := readEach id (frame 0) (List.finRange width)

theorem Routines.loops_computes {width widthR : Nat} {τ σ : Type*}
    (frame : Nat → Fin width → τ) (kernel : (Fin width → τ) → Fin widthR → σ) :
    (Routines.loops frame kernel).Computes frame kernel where
  fill i array := writeEach_frame (frame i) array ()
  kernel array := readEach_frame kernel (frame 0) array
  copy image array := writeEach_frame image array ()
  store array := readEach_frame id (frame 0) array
  storeR array := readEach_frame id (kernel (frame 0)) array
  send array := readEach_frame id (frame 0) array

section Programs

variable {ι κ τ σ : Type*} [DecidableEq ι] [DecidableEq κ] {routines : Routines ι κ τ σ}
  {frame : Nat → ι → τ} {kernel : (ι → τ) → κ → σ} {program : Program}
  {sample : SampleState ι κ τ σ}

/-- No two threads are in the middle of accesses to one slot of a ring, and with
one sample at a time each program does what it does with whole accesses. -/
theorem sample_accesses (known : MultiThread program)
    (computes : routines.Computes frame kernel)
    (reachable : program.SampleReachable routines sample) :
    (∀ id other ring, (sample.pending id).ring = some ring →
      (sample.pending other).ring = some ring →
      (sample.state.locals id).index.n = (sample.state.locals other).index.n → id = other) ∧
    ∃ state, program.Reachable frame kernel state ∧ sample.Agrees state := by
  obtain ⟨roster⟩ := known.exists_roster
  obtain ⟨state, reached, interleaves⟩ :=
    Program.exists_interleaves roster computes known.matched reachable
  refine ⟨?_, state, reached, interleaves.agrees⟩
  intro id other ring busy otherBusy here
  obtain ⟨_, _, _, alone⟩ :=
    interleaves.accesses (roster.invariant_of_reachable reached) known.matched busy
  by_contra different
  rw [interleaves.locals] at here
  exact alone other (fun same => different same.symm) here.symm otherBusy

end Programs

theorem sample_accesses_process :
    let program := process 4 5 4
    let frame (i : Nat) (x : Fin 2) := i + x
    let routines := Routines.loops frame id
    let first : SampleState (Fin 2) (Fin 2) Nat Nat :=
      ⟨program.start (fun _ => 0) (fun _ => 0), fun _ => .idle⟩
    let sample := program.sampleStep routines (program.sampleStep routines
      (program.sampleStep routines first 0) 0) 0
    (∀ id other ring, (sample.pending id).ring = some ring →
      (sample.pending other).ring = some ring →
      (sample.state.locals id).index.n = (sample.state.locals other).index.n → id = other) ∧
    ∃ state, program.Reachable frame id state ∧ sample.Agrees state :=
  sample_accesses (.process (by decide : 0 < 2) (by decide)) (Routines.loops_computes _ _)
    (.step (.step (.step (.start ⟨Program.start_initial _ _, fun _ => rfl⟩)
      ⟨0, by decide, rfl⟩) ⟨0, by decide, rfl⟩) ⟨0, by decide, rfl⟩)

end RockAMali
