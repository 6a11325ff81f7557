import Mathlib.Data.List.Basic
import RockAMali.Ownership

/-!
Which frame is where. Visit number `lap` to a slot is always about the frame
`slot + nbuffer * lap`, in both rings, in the local images and in what has been
stored or sent.
-/

namespace RockAMali

open Relay

section Effects

variable {α β : Type*} (frame : Nat → α) (kernel : α → β) (hold : Hold) (index : Index)
  (data : Data α β) (image : β)

@[simp] theorem Hold.perform_images : (hold.perform frame kernel index data image).1.images =
    if hold.action = .fill then Function.update data.images index.n (frame index.i)
    else data.images := by
  rcases hold with ⟨_ | _, _, _, _, _ | _ | _ | _ | _⟩ <;> simp [Hold.perform]

@[simp] theorem Hold.perform_results : (hold.perform frame kernel index data image).1.results =
    if hold.action = .copy then Function.update data.results index.n image
    else data.results := by
  rcases hold with ⟨_ | _, _, _, _, _ | _ | _ | _ | _⟩ <;> simp [Hold.perform]

@[simp] theorem Hold.perform_image : (hold.perform frame kernel index data image).2 =
    if hold.action = .kernel then kernel (data.images index.n) else image := by
  rcases hold with ⟨_ | _, _, _, _, _ | _ | _ | _ | _⟩ <;> simp [Hold.perform]

@[simp] theorem Hold.perform_reads : (hold.perform frame kernel index data image).1.reads =
    if hold.action = .kernel then Function.update data.reads index.n
      (data.reads index.n ++ [(index.i, data.images index.n)])
    else data.reads := by
  rcases hold with ⟨_ | _, _, _, _, _ | _ | _ | _ | _⟩ <;> simp [Hold.perform]

@[simp] theorem Hold.perform_stored : (hold.perform frame kernel index data image).1.stored =
    if hold.action = .store ∧ hold.ring = .images then data.stored ++ [data.images index.n]
    else data.stored := by
  rcases hold with ⟨_ | _, _, _, _, _ | _ | _ | _ | _⟩ <;> simp [Hold.perform]

@[simp] theorem Hold.perform_storedR : (hold.perform frame kernel index data image).1.storedR =
    if hold.action = .store ∧ hold.ring = .results then data.storedR ++ [data.results index.n]
    else data.storedR := by
  rcases hold with ⟨_ | _, _, _, _, _ | _ | _ | _ | _⟩ <;> simp [Hold.perform]

@[simp] theorem Hold.perform_sent : (hold.perform frame kernel index data image).1.sent =
    if hold.action = .send then data.sent ++ [data.images index.n] else data.sent := by
  rcases hold with ⟨_ | _, _, _, _, _ | _ | _ | _ | _⟩ <;> simp [Hold.perform]

end Effects

def Program.frameOf (program : Program) (id step : Nat) : Nat :=
  program.slot id step + program.nbuffer * visits (program.slot id) step (program.slot id step)

theorem Program.frameOf_buffer {program : Program} {id step : Nat} (positive : 0 < program.nbuffer)
    (run : (program.thread id).run = .buffer) : program.frameOf id step = step := by
  have slots : program.slot id = fun visit => visit % program.nbuffer := by
    funext visit
    rw [Program.slot, run, Run.slot_buffer positive]
  rw [Program.frameOf, slots, visits_mod positive, Nat.mod_add_div]

inductive Duty (ready : Taccess) (thread : Thread) (hold : Hold) : Nat → Prop
  | fill : hold.action = .fill → hold.ring = .images → hold.waitStatus = statusFree →
      thread.run = .buffer → Duty ready thread hold 0
  | kernel {second} : hold.action = .kernel → hold.ring = .images → hold.waitStatus = ready →
      thread.iteration = [hold, second] → Duty ready thread hold 0
  | copy {first} : hold.action = .copy → hold.ring = .results → hold.waitStatus = statusFree →
      thread.iteration = [first, hold] → first.action = .kernel → Duty ready thread hold 1
  | store : hold.action = .store → hold.waitStatus ≠ statusFree → thread.run = .buffer →
      thread.iteration = [hold] → Duty ready thread hold 0
  | send : hold.action = .send → hold.ring = .images → hold.waitStatus ≠ statusFree →
      thread.run = .buffer → thread.iteration = [hold] → Duty ready thread hold 0

namespace Roster

structure Dataflow {program : Program} (roster : Roster program) (ready : Taccess) : Prop where
  busy : ready ≠ statusFree
  duty : ∀ id < program.threads, ∀ part hold, (program.thread id).iteration[part]? = some hold →
    Duty ready (program.thread id) hold part
  single : ∀ first < program.threads, ∀ second < program.threads, ∀ hold other,
    (program.thread first).iteration = [hold] → (program.thread second).iteration = [other] →
    hold.action = other.action → hold.ring = other.ring → first = second

section Definitions

variable {α β : Type*} {program : Program} (roster : Roster program)

def accessed (state : State α β) (ring : Ring) (slot stage : Nat) : Nat :=
  let visitor := roster.visitor ring stage slot
  visits (program.slot visitor.1)
    ((program.thread visitor.1).accesses (state.locals visitor.1) visitor.2) slot

structure Flow (frame : Nat → α) (kernel : α → β) (state : State α β) : Prop where
  images : roster.cycle .images ≠ [] → ∀ slot < program.nbuffer, ∀ lap,
    roster.accessed state .images slot 0 = lap + 1 →
    state.data.images slot = frame (slot + program.nbuffer * lap)
  results : roster.cycle .results ≠ [] → ∀ slot < program.nbuffer, ∀ lap,
    roster.accessed state .results slot 0 = lap + 1 →
    state.data.results slot = kernel (frame (slot + program.nbuffer * lap))
  image : ∀ id < program.threads, ∀ first second,
    (program.thread id).iteration = [first, second] → first.action = .kernel →
    0 < (state.locals id).hold ∨ (state.locals id).phase = .set →
    (state.locals id).image =
      kernel (frame (program.frameOf id ((program.thread id).iterations (state.locals id))))
  reads : ∀ slot, ∀ entry ∈ state.data.reads slot, ∃ id < program.threads,
    ∃ first second step, (program.thread id).iteration = [first, second] ∧
      program.slot id step = slot ∧
      entry = (((program.thread id).run.index program.nbuffer step).i,
        frame (program.frameOf id step))
  laps : ∀ slot < program.nbuffer, ∀ stage < (roster.cycle .images).length, ∀ hold,
    (program.thread (roster.visitor .images stage slot).1).iteration[
      (roster.visitor .images stage slot).2]? = some hold → hold.action = .kernel →
    (state.data.reads slot).map Prod.snd =
      (List.range (roster.accessed state .images slot stage)).map
        fun lap => frame (slot + program.nbuffer * lap)
  stored : ∀ id < program.threads, ∀ hold, (program.thread id).iteration = [hold] →
    hold.action = .store → hold.ring = .images →
    state.data.stored =
      (List.range ((program.thread id).accesses (state.locals id) 0)).map frame
  storedR : ∀ id < program.threads, ∀ hold, (program.thread id).iteration = [hold] →
    hold.action = .store → hold.ring = .results →
    state.data.storedR =
      (List.range ((program.thread id).accesses (state.locals id) 0)).map fun i => kernel (frame i)
  sent : ∀ id < program.threads, ∀ hold, (program.thread id).iteration = [hold] →
    hold.action = .send →
    state.data.sent = (List.range ((program.thread id).accesses (state.locals id) 0)).map frame

end Definitions

variable {α β : Type*} {frame : Nat → α} {kernel : α → β} {program : Program}
  {state successor : State α β} {id : Nat} {ring : Ring} {slot stage : Nat} {hold : Hold}
  {roster : Roster program} {ready : Taccess}

theorem Flow.initial (first : program.Initial state) : roster.Flow frame kernel state := by
  have start (id part : Nat) : (program.thread id).accesses (state.locals id) part = 0 := by
    simp [Thread.accesses, Thread.iterations, first.index, first.hold, first.phase, Run.first]
  constructor
  · intro _ slot _ lap count
    simp [accessed, start] at count
  · intro _ slot _ lap count
    simp [accessed, start] at count
  · intro id _ _ _ _ _ started
    simp [first.hold, first.phase] at started
  · intro slot entry member
    simp [first.reads] at member
  · intro slot _ stage _ hold _ _
    simp [first.reads, accessed, start]
  · intro id _ hold _ _ _
    simp [first.stored, start]
  · intro id _ hold _ _ _
    simp [first.storedR, start]
  · intro id _ hold _ _
    simp [first.sent, start]

theorem accessed_congr (slotBound : slot < program.nbuffer)
    (stageBound : stage < (roster.cycle ring).length)
    (same : ∀ id < program.threads, ∀ part < (program.thread id).iteration.length,
      (program.thread id).accesses (successor.locals id) part =
        (program.thread id).accesses (state.locals id) part) :
    roster.accessed successor ring slot stage = roster.accessed state ring slot stage := by
  obtain ⟨visiting, hold, found, _⟩ :=
    roster.serves ring stage slot _ slotBound (List.getElem?_eq_getElem stageBound)
  simp only [accessed, same _ visiting _ (List.getElem?_eq_some_iff.mp found).1]

theorem Flow.unchanged (flow : roster.Flow frame kernel state)
    (data : successor.data = state.data)
    (same : ∀ id < program.threads, ∀ part < (program.thread id).iteration.length,
      (program.thread id).accesses (successor.locals id) part =
        (program.thread id).accesses (state.locals id) part)
    (image : ∀ id < program.threads, (program.thread id).iteration.length = 2 →
      0 < (successor.locals id).hold ∨ (successor.locals id).phase = .set →
      (0 < (state.locals id).hold ∨ (state.locals id).phase = .set) ∧
        (successor.locals id).image = (state.locals id).image ∧
        (successor.locals id).index = (state.locals id).index) :
    roster.Flow frame kernel successor := by
  constructor
  · intro nonempty slot slotBound lap
    rw [data, accessed_congr slotBound (List.length_pos_iff.mpr nonempty) same]
    exact flow.images nonempty slot slotBound lap
  · intro nonempty slot slotBound lap
    rw [data, accessed_congr slotBound (List.length_pos_iff.mpr nonempty) same]
    exact flow.results nonempty slot slotBound lap
  · intro id bound first second holds kernels started
    obtain ⟨before, imageSame, index⟩ := image id bound (by rw [holds]; rfl) started
    have iterations : (program.thread id).iterations (successor.locals id) =
        (program.thread id).iterations (state.locals id) := by
      simp only [Thread.iterations, index]
    rw [imageSame, iterations]
    exact flow.image id bound first second holds kernels before
  · rw [data]
    exact flow.reads
  · intro slot slotBound stage stageBound
    rw [data, accessed_congr slotBound stageBound same]
    exact flow.laps slot slotBound stage stageBound
  · intro id bound hold holds
    rw [data, same id bound 0 (by simp [holds])]
    exact flow.stored id bound hold holds
  · intro id bound hold holds
    rw [data, same id bound 0 (by simp [holds])]
    exact flow.storedR id bound hold holds
  · intro id bound hold holds
    rw [data, same id bound 0 (by simp [holds])]
    exact flow.sent id bound hold holds

theorem accesses_perform (accessing : (state.locals id).phase = .access) (other part : Nat) :
    (program.thread other).accesses ((state.perform frame kernel id hold).locals other) part =
      (program.thread other).accesses (state.locals other) part +
        if other = id ∧ part = (state.locals id).hold then 1 else 0 := by
  by_cases same : other = id
  · subst same
    simp only [State.perform, Function.update_self, true_and]
    exact Thread.accesses_perform accessing _
  · simp [State.perform, same]

theorem accesses_perform_of_ne (current : program.current state id = some hold)
    (accessing : (state.locals id).phase = .access) {other part : Nat} {served : Hold}
    (found : (program.thread other).iteration[part]? = some served) (different : served ≠ hold) :
    (program.thread other).accesses ((state.perform frame kernel id hold).locals other) part =
      (program.thread other).accesses (state.locals other) part := by
  rw [accesses_perform accessing, if_neg, Nat.add_zero]
  rintro ⟨rfl, rfl⟩
  exact different (Option.some.inj (found.symm.trans (Program.current_some current).2))

theorem Invariant.accessed_perform (invariant : roster.Invariant state)
    (bound : id < program.threads) (accessing : (state.locals id).phase = .access) :
    roster.accessed (state.perform frame kernel id hold) ring slot stage =
      roster.accessed state ring slot stage +
        if roster.visitor ring stage slot = (id, (state.locals id).hold) ∧
          (state.locals id).index.n = slot then 1 else 0 := by
  simp only [accessed]
  rw [accesses_perform accessing]
  by_cases visiting : roster.visitor ring stage slot = (id, (state.locals id).hold)
  · have accesses : (program.thread id).accesses (state.locals id) (state.locals id).hold =
        (program.thread id).iterations (state.locals id) := by
      simp [Thread.accesses, accessing]
    simp only [visiting, true_and, and_self, if_true, visits_succ, accesses,
      ← invariant.current_slot bound]
  · rw [if_neg, Nat.add_zero, if_neg, Nat.add_zero]
    · exact fun same => visiting same.1
    · exact fun same => visiting (Prod.ext same.1 same.2)

theorem accessed_perform_of_ne (current : program.current state id = some hold)
    (accessing : (state.locals id).phase = .access) {served : Hold}
    (found : (program.thread (roster.visitor ring stage slot).1).iteration[
      (roster.visitor ring stage slot).2]? = some served) (different : served ≠ hold) :
    roster.accessed (state.perform frame kernel id hold) ring slot stage =
      roster.accessed state ring slot stage := by
  simp only [accessed, accesses_perform_of_ne current accessing found different]

theorem accessed_of_access (accessing : (state.locals id).phase = .access)
    (visiting : roster.visitor ring stage slot = (id, (state.locals id).hold)) :
    roster.accessed state ring slot stage =
      visits (program.slot id) ((program.thread id).iterations (state.locals id)) slot := by
  simp [accessed, visiting, Thread.accesses, accessing]

theorem Invariant.accessed_of_not_set (invariant : roster.Invariant state)
    (slotBound : slot < program.nbuffer) (stageBound : stage < (roster.cycle ring).length)
    (free : ∀ hold, program.Holds state (roster.visitor ring stage slot).1 hold (ring, slot) →
      (state.locals (roster.visitor ring stage slot).1).hold ≠ (roster.visitor ring stage slot).2) :
    roster.accessed state ring slot stage = roster.served state ring slot stage := by
  obtain ⟨visiting, hold, found, ringEq, _⟩ :=
    roster.serves ring stage slot _ slotBound (List.getElem?_eq_getElem stageBound)
  simp only [accessed, served]
  generalize roster.visitor ring stage slot = visitor at free visiting found
  obtain ⟨id, part⟩ := visitor
  simp only at free visiting found ⊢
  by_cases setting : part = (state.locals id).hold ∧ (state.locals id).phase = .set
  · -- the visitor has accessed another slot of the ring
    obtain ⟨partEq, phase⟩ := setting
    subst partEq
    have running := invariant.busy id visiting (by simp [phase])
    obtain ⟨held, current⟩ := Option.isSome_iff_exists.mp running
    have same : held = hold :=
      Option.some.inj ((Program.current_some current).2.symm.trans found)
    have elsewhere : (state.locals id).index.n ≠ slot := by
      intro slotEq
      exact free held ⟨current, by simp [phase], by rw [State.place, same, ringEq, slotEq]⟩ rfl
    rw [invariant.current_slot visiting] at elsewhere
    simp [Thread.accesses, Thread.releases, phase, visits_succ, elsewhere]
  · have idle : (program.thread id).accesses (state.locals id) part =
        (program.thread id).releases (state.locals id) part := by
      simp only [Thread.accesses, Thread.releases, setting, or_false]
    rw [idle]

theorem Invariant.accessed_first (invariant : roster.Invariant state)
    (bound : id < program.threads) (current : program.current state id = some hold)
    (accessing : (state.locals id).phase = .access) (later : hold.waitStatus ≠ statusFree) :
    roster.accessed state hold.ring (state.locals id).index.n 0 =
      visits (program.slot id) ((program.thread id).iterations (state.locals id))
        (state.locals id).index.n + 1 := by
  have positive := List.length_pos_iff.mpr (invariant.cycle_ne_nil bound current)
  obtain ⟨baton, counts, occupied⟩ := invariant.occupied bound
    (⟨current, by simp [accessing], rfl⟩ : program.Holds state id hold (state.place id hold))
  have stageBound := baton.stage.isLt
  have after : 0 < (baton.stage : Nat) := by
    apply Nat.pos_of_ne_zero
    intro first
    have wait := occupied.wait
    rw [first] at wait
    exact later (roster.free hold.ring _ wait)
  have own := counts baton.stage stageBound
  rw [Baton.served_stage] at own
  simp only [served, occupied.visitor, Thread.releases, Nat.lt_irrefl, if_false,
    Nat.add_zero] at own
  rw [invariant.accessed_of_not_set (invariant.slot_lt bound) positive, counts 0 positive,
    Baton.served_of_lt baton after, own]
  intro other held part
  obtain ⟨visiting, first, found, _, wait⟩ := roster.serves hold.ring 0 (state.locals id).index.n _
    (invariant.slot_lt bound) (List.getElem?_eq_getElem positive)
  have same := occupied.alone _ visiting other held
  rw [same] at part found
  rw [← part, (Program.current_some current).2] at found
  rw [← Option.some.inj found] at wait
  exact later (wait.trans (roster.free hold.ring _ (List.getElem?_eq_getElem positive)))

end Roster

end RockAMali
