import RockAMali.Rosters
import RockAMali.Sequential

/-!
What the multi-thread programs do under every order of steps: each slot has one
owner at a time, and the stores write the frames and their kernels in order.
-/

namespace RockAMali

open Relay

inductive MultiThread : Program → Prop
  | process {nbuffer count stride} : 0 < stride → stride ≤ nbuffer →
      MultiThread (process nbuffer count (stride + 2))
  | receiveOnly {nbuffer count} : 0 < nbuffer → MultiThread (receive nbuffer count 2)
  | receive {nbuffer count stride} : 0 < stride → stride ≤ nbuffer →
      MultiThread (receive nbuffer count (stride + 3))
  | send {nbuffer count tn} : 0 < nbuffer → 2 ≤ tn → MultiThread (send nbuffer count tn)

theorem MultiThread.exists_roster {program : Program} (known : MultiThread program) :
    Nonempty (Roster program) := by
  cases known with
  | process positive fits => exact ⟨processRoster _ _ _ positive fits⟩
  | receiveOnly positive => exact ⟨receiveOnlyRoster _ _ positive⟩
  | receive positive fits => exact ⟨receiveRoster _ _ _ positive fits⟩
  | send positive enough => exact ⟨sendRoster _ _ _ positive enough⟩

variable {α β : Type*} {frame : Nat → α} {kernel : α → β}

theorem slot_ownership {program : Program} {state : State α β} (known : MultiThread program)
    (reachable : program.Reachable frame kernel state) :
    state.exited = false ∧
      ∀ place, ∀ id < program.threads, ∀ hold, program.Holds state id hold place →
        state.access place = hold.state ∧
          ∀ other < program.threads, ∀ otherHold,
            program.Holds state other otherHold place → other = id := by
  obtain ⟨roster⟩ := known.exists_roster
  have invariant := roster.invariant_of_reachable reachable
  refine ⟨invariant.exited, ?_⟩
  intro (ring, slot) id bound hold held
  obtain ⟨_, _, occupied⟩ := invariant.occupied bound held
  exact ⟨occupied.status, occupied.alone⟩

theorem slot_ownership_acquired :
    let state := (process 2 1 3).run id id [0] ((process 2 1 3).start 0 0)
    state.access (.images, 0) = stateFilling ∧
      ∀ other < 3, ∀ hold, (process 2 1 3).Holds state other hold (.images, 0) → other = 0 := by
  intro state
  have reachable : (process 2 1 3).Reachable id id state :=
    Program.run_reachable (by decide) (.start (Program.start_initial 0 0))
  have held : (process 2 1 3).Holds state 0
      ⟨.images, statusFree, stateFilling, statusFilled, .fill⟩ (.images, 0) :=
    ⟨by decide +kernel, by decide +kernel, by decide +kernel⟩
  exact (slot_ownership (.process (by decide) (by decide)) reachable).2 _ 0 (by decide) _ held

theorem range_prefix {γ : Type*} {few many : Nat} (fewer : few ≤ many) (value : Nat → γ) :
    (List.range few).map value <+: (List.range many).map value := by
  obtain ⟨rest, rfl⟩ := Nat.exists_eq_add_of_le fewer
  rw [List.range_add, List.map_append]
  exact List.prefix_append _ _

/-- The store of `process.cpp` is at every moment a prefix of the kernels of the
frames, which is what `process_sequential.cpp` stores. -/
theorem process_stores {nbuffer count stride : Nat} (positive : 0 < stride)
    (fits : stride ≤ nbuffer) {state : State α β}
    (reachable : (process nbuffer count (stride + 2)).Reachable frame kernel state)
    {initial : Sequential α β} (first : initial.Initial) :
    state.data.storedR <+: (List.range count).map (fun i => kernel (frame i)) ∧
      ∃ last, processSequential frame kernel count initial = some last ∧
        last.data.storedR = (List.range count).map fun i => kernel (frame i) := by
  have laws : (processRoster nbuffer count stride positive fits).Dataflow statusFilled :=
    processRoster_dataflow positive fits
  obtain ⟨invariant, flow⟩ := Roster.flow_of_reachable _ laws reachable
  have loops := Roster.loops_of_reachable (processRoster nbuffer count stride positive fits) reachable
  have storing : 1 < (process nbuffer count (stride + 2)).threads := by
    simp only [process]
    omega
  constructor
  · rw [flow.storedR 1 storing _ rfl rfl rfl]
    exact range_prefix (loops.accesses_le_count invariant storing rfl) _
  · obtain ⟨last, ran, _, _, _, storedR⟩ := processSequential_stores first count
    exact ⟨last, ran, storedR⟩

theorem process_stores_first_frame :
    let state := (process 1 2 3).run id (· + 7) [0, 0, 0, 2, 2, 2, 2, 2, 2, 1, 1]
      ((process 1 2 3).start 0 0)
    state.data.storedR = [7] ∧
      state.data.storedR <+: (List.range 2).map (fun i => i + 7) ∧
      ∃ last, processSequential id (· + 7) 2
          (⟨fun _ => statusFree, ⟨fun _ => 0, fun _ => 0, fun _ => [], [], [], []⟩, 0⟩ :
            Sequential Nat Nat) = some last ∧
        last.data.storedR = (List.range 2).map fun i => i + 7 := by
  intro state
  have reachable : (process 1 2 (1 + 2)).Reachable id (· + 7) state :=
    Program.run_reachable (by decide) (.start (Program.start_initial 0 0))
  have stored : state.data.storedR = [7] := by decide +kernel
  exact ⟨stored, process_stores (by decide) (by decide) reachable ⟨fun _ => rfl, rfl, rfl⟩⟩

theorem send_sends {nbuffer count tn : Nat} (positive : 0 < nbuffer) (enough : 2 ≤ tn)
    {state : State α β} (reachable : (send nbuffer count tn).Reachable frame kernel state) :
    state.data.sent <+: (List.range count).map frame := by
  have laws : (sendRoster nbuffer count tn positive enough).Dataflow statusFilled :=
    sendRoster_dataflow positive enough
  obtain ⟨invariant, flow⟩ := Roster.flow_of_reachable _ laws reachable
  have loops := Roster.loops_of_reachable (sendRoster nbuffer count tn positive enough) reachable
  have sending : 1 < (send nbuffer count tn).threads := enough
  rw [flow.sent 1 sending _ rfl rfl]
  exact range_prefix (loops.accesses_le_count invariant sending rfl) _

structure Overwrites (program : Program) (state : State α β) (i : Nat) : Prop where
  running : program.Running state 0
  phase : (state.locals 0).phase ≠ .wait
  index : (state.locals 0).index.i = i
  second : program.nbuffer ≤ i

section Overwrites

variable {program : Program} {state : State α β} {roster : Roster program} {i stage : Nat}
  (invariant : roster.Invariant state) (flow : roster.Flow frame kernel state)
  (bound : 0 < program.threads) {source : Hold}
  (run : (program.thread 0).run = .buffer) (holds : (program.thread 0).iteration = [source])
  (images : source.ring = .images) (first : source.waitStatus = statusFree)
  (overwrites : Overwrites program state i) (stageBound : stage < (roster.cycle .images).length)

include invariant bound run

theorem overwrites_slot (overwrites : Overwrites program state i) :
    0 < program.nbuffer ∧ (state.locals 0).index.n = i % program.nbuffer := by
  have slotBound := invariant.slot_lt bound
  have positive : 0 < program.nbuffer := by omega
  have label := invariant.label_buffer bound run
  rw [overwrites.index] at label
  rw [invariant.current_slot bound, Program.slot, run, Run.slot_buffer positive, ← label]
  exact ⟨positive, rfl⟩

include holds images first overwrites stageBound

theorem accessed_before_overwrite :
    i / program.nbuffer ≤ roster.accessed state .images (i % program.nbuffer) stage := by
  obtain ⟨positive, slot⟩ := overwrites_slot invariant bound run overwrites
  obtain ⟨hold, current⟩ := Option.isSome_iff_exists.mp overwrites.running
  have found := (Program.current_some current).2
  rw [holds] at found
  obtain ⟨_, rfl⟩ := getElem?_single found
  have held : program.Holds state 0 hold (.images, (state.locals 0).index.n) :=
    ⟨current, overwrites.phase, by rw [State.place, images]⟩
  have slots : program.slot 0 = fun visit => visit % program.nbuffer := by
    funext visit
    rw [Program.slot, run, Run.slot_buffer positive]
  have served := invariant.served_first bound held first stageBound
  rw [← invariant.label_buffer bound run, slots, slot, overwrites.index,
    visits_mod positive] at served
  rw [← served]
  exact Roster.served_le_accessed

include flow

theorem stored_before_overwrite {id : Nat} {store : Hold}
    (visitor : roster.visitor .images stage (i % program.nbuffer) = (id, 0))
    (storeBound : id < program.threads) (storeRun : (program.thread id).run = .buffer)
    (storeHolds : (program.thread id).iteration = [store]) (storing : store.action = .store)
    (ring : store.ring = .images) :
    state.data.stored[i - program.nbuffer]? = some (frame (i - program.nbuffer)) := by
  obtain ⟨positive, _⟩ := overwrites_slot invariant bound run overwrites
  have second := overwrites.second
  have accessed := accessed_before_overwrite invariant bound run holds images first overwrites
    stageBound
  have slots : program.slot id = fun visit => visit % program.nbuffer := by
    funext visit
    rw [Program.slot, storeRun, Run.slot_buffer positive]
  simp only [Roster.accessed, visitor, slots] at accessed
  have enough : i - program.nbuffer < (program.thread id).accesses (state.locals id) 0 := by
    by_contra few
    have before := visits_mono (fun visit => visit % program.nbuffer) (i % program.nbuffer)
      (Nat.le_of_not_lt few)
    have laps := visits_mod positive (i - program.nbuffer)
    rw [← Nat.mod_eq_sub_mod second] at laps
    have lap := Nat.div_eq_sub_div positive second
    omega
  rw [flow.stored id storeBound store storeHolds storing ring]
  simp [enough]

theorem read_before_overwrite {id : Nat} {reader second : Hold}
    (visitor : roster.visitor .images stage (i % program.nbuffer) = (id, 0))
    (readHolds : (program.thread id).iteration = [reader, second])
    (reading : reader.action = .kernel) :
    ((state.data.reads (i % program.nbuffer)).map Prod.snd)[i / program.nbuffer - 1]? =
      some (frame (i - program.nbuffer)) := by
  obtain ⟨positive, _⟩ := overwrites_slot invariant bound run overwrites
  have accessed := accessed_before_overwrite invariant bound run holds images first overwrites
    stageBound
  have lap := Nat.div_eq_sub_div positive overwrites.second
  have before : i / program.nbuffer - 1 = (i - program.nbuffer) / program.nbuffer := by
    rw [lap, Nat.add_sub_cancel]
  have read : (i - program.nbuffer) / program.nbuffer <
      roster.accessed state .images (i % program.nbuffer) stage := by
    rw [← Nat.succ_le_iff, Nat.succ_eq_add_one, ← lap]
    exact accessed
  have frameBefore := Nat.mod_add_div (i - program.nbuffer) program.nbuffer
  rw [← Nat.mod_eq_sub_mod overwrites.second] at frameBefore
  rw [flow.laps _ (Nat.mod_lt i positive) stage stageBound reader (by simp [visitor, readHolds])
    reading, before, List.getElem?_map, List.getElem?_range read, Option.map_some,
    frameBefore]

end Overwrites

theorem receive_stores {nbuffer count stride : Nat} (fits : stride ≤ nbuffer)
    (positive : 0 < nbuffer) :
    (∀ state : State α β, 0 < stride →
      (receive nbuffer count (stride + 3)).Reachable frame kernel state →
        state.data.stored <+: (List.range count).map frame ∧
        state.data.storedR <+: (List.range count).map (fun i => kernel (frame i)) ∧
        ∀ i, Overwrites (receive nbuffer count (stride + 3)) state i →
          state.data.stored[i - nbuffer]? = some (frame (i - nbuffer)) ∧
          ((state.data.reads (i % nbuffer)).map Prod.snd)[i / nbuffer - 1]? =
            some (frame (i - nbuffer))) ∧
    ∀ state : State α β, (receive nbuffer count 2).Reachable frame kernel state →
      state.data.stored <+: (List.range count).map frame ∧
      ∀ i, Overwrites (receive nbuffer count 2) state i →
        state.data.stored[i - nbuffer]? = some (frame (i - nbuffer)) := by
  constructor
  · intro state processing reachable
    have laws : (receiveRoster nbuffer count stride processing fits).Dataflow statusReceived :=
      receiveRoster_dataflow processing fits
    obtain ⟨invariant, flow⟩ := Roster.flow_of_reachable _ laws reachable
    have loops := Roster.loops_of_reachable (receiveRoster nbuffer count stride processing fits)
      reachable
    have threads : 2 < (receive nbuffer count (stride + 3)).threads := by
      simp only [receive]
      omega
    refine ⟨?_, ?_, ?_⟩
    · rw [flow.stored 1 (by omega) _ rfl rfl rfl]
      exact range_prefix (loops.accesses_le_count invariant (by omega) rfl) _
    · rw [flow.storedR 2 threads _ rfl rfl rfl]
      exact range_prefix (loops.accesses_le_count invariant threads rfl) _
    · intro i overwrites
      constructor
      · exact stored_before_overwrite invariant flow (by omega) rfl rfl rfl rfl overwrites
          (by decide : 2 < 3) rfl (by omega) rfl rfl rfl rfl
      · exact read_before_overwrite invariant flow (by omega) rfl rfl rfl rfl overwrites
          (by decide : 1 < 3) rfl rfl rfl
  · intro state reachable
    have laws : (receiveOnlyRoster nbuffer count positive).Dataflow statusReceived :=
      receiveOnlyRoster_dataflow positive
    obtain ⟨invariant, flow⟩ := Roster.flow_of_reachable _ laws reachable
    have loops := Roster.loops_of_reachable (receiveOnlyRoster nbuffer count positive) reachable
    have threads : 1 < (receive nbuffer count 2).threads := Nat.one_lt_two
    constructor
    · rw [flow.stored 1 threads _ rfl rfl rfl]
      exact range_prefix (loops.accesses_le_count invariant threads rfl) _
    · intro i overwrites
      exact stored_before_overwrite invariant flow (by omega) rfl rfl rfl rfl overwrites
        (by decide : 1 < 2) rfl threads rfl rfl rfl rfl

theorem receive_stores_second_lap :
    let both := (receive 1 2 4).run id (· + 7) [0, 0, 0, 3, 3, 3, 3, 3, 3, 1, 1, 1, 0]
      ((receive 1 2 4).start 0 0)
    let single := (receive 1 2 2).run id (· + 7) [0, 0, 0, 1, 1, 1, 0]
      ((receive 1 2 2).start 0 0)
    (both.data.stored[0]? = some 0 ∧ ((both.data.reads 0).map Prod.snd)[0]? = some 0) ∧
      single.data.stored[0]? = some 0 := by
  intro both single
  have bothReachable : (receive 1 2 (1 + 3)).Reachable id (· + 7) both :=
    Program.run_reachable (by decide) (.start (Program.start_initial 0 0))
  have singleReachable : (receive 1 2 2).Reachable id (· + 7) single :=
    Program.run_reachable (by decide) (.start (Program.start_initial 0 0))
  have bothOverwrites : Overwrites (receive 1 2 (1 + 3)) both 1 :=
    ⟨by decide +kernel, by decide +kernel, by decide +kernel, Nat.le_refl 1⟩
  have singleOverwrites : Overwrites (receive 1 2 2) single 1 :=
    ⟨by decide +kernel, by decide +kernel, by decide +kernel, Nat.le_refl 1⟩
  have fits : 1 ≤ 1 := Nat.le_refl 1
  constructor
  · clear_value both
    obtain ⟨stored, read⟩ :=
      ((receive_stores fits Nat.one_pos).1 both Nat.one_pos bothReachable).2.2 1 bothOverwrites
    exact ⟨stored, read⟩
  · clear_value single
    exact ((receive_stores fits Nat.one_pos).2 single singleReachable).2 1 singleOverwrites

end RockAMali
