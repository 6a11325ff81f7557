import RockAMali.DataFlow

/-!
The data flow invariant holds in every state of every run: each data access
moves the frame that its slot, ring and lap stand for.
-/

namespace RockAMali

open Relay

namespace Roster

variable {α β : Type*} {frame : Nat → α} {kernel : α → β} {program : Program}
  {state successor : State α β} {id : Nat} {ring : Ring} {slot stage : Nat} {hold : Hold}
  {roster : Roster program} {ready : Taccess}

theorem Dataflow.writes (laws : roster.Dataflow ready) (bound : id < program.threads) {part : Nat}
    (found : (program.thread id).iteration[part]? = some hold) :
    hold.waitStatus = statusFree ↔ hold.action = .fill ∨ hold.action = .copy := by
  cases laws.duty id bound part hold found with
  | fill action _ wait _ => simp [action, wait]
  | kernel action _ wait _ => simp [action, wait, laws.busy]
  | copy action _ wait _ _ => simp [action, wait]
  | store action wait _ _ => simp [action, wait]
  | send action _ wait _ _ => simp [action, wait]

theorem Dataflow.ring_eq (laws : roster.Dataflow ready) (bound : id < program.threads) {part : Nat}
    (found : (program.thread id).iteration[part]? = some hold) (notStore : hold.action ≠ .store) :
    hold.ring = if hold.action = .copy then .results else .images := by
  cases laws.duty id bound part hold found with
  | fill action ring _ _ => simp [action, ring]
  | kernel action ring _ _ => simp [action, ring]
  | copy action ring _ _ _ => simp [action, ring]
  | store action _ _ _ => exact (notStore action).elim
  | send action ring _ _ _ => simp [action, ring]

theorem Dataflow.fill (laws : roster.Dataflow ready) (bound : id < program.threads) {part : Nat}
    (found : (program.thread id).iteration[part]? = some hold) (filling : hold.action = .fill) :
    (program.thread id).run = .buffer := by
  cases laws.duty id bound part hold found with
  | fill _ _ _ run => exact run
  | kernel action _ _ _ => simp [filling] at action
  | copy action _ _ _ _ => simp [filling] at action
  | store _ _ run _ => exact run
  | send _ _ _ run _ => exact run

theorem Dataflow.reads (laws : roster.Dataflow ready) (bound : id < program.threads) {part : Nat}
    (found : (program.thread id).iteration[part]? = some hold) (kernels : hold.action = .kernel) :
    hold.ring = .images ∧ hold.waitStatus = ready ∧
      ∃ second, (program.thread id).iteration = [hold, second] := by
  cases laws.duty id bound part hold found with
  | fill action _ _ _ => simp [kernels] at action
  | kernel _ ring wait holds => exact ⟨ring, wait, _, holds⟩
  | copy action _ _ _ _ => simp [kernels] at action
  | store action _ _ _ => simp [kernels] at action
  | send action _ _ _ _ => simp [kernels] at action

theorem Dataflow.copy (laws : roster.Dataflow ready) (bound : id < program.threads) {part : Nat}
    (found : (program.thread id).iteration[part]? = some hold) (copying : hold.action = .copy) :
    part = 1 ∧ ∃ first, (program.thread id).iteration = [first, hold] ∧ first.action = .kernel := by
  cases laws.duty id bound part hold found with
  | fill action _ _ _ => simp [copying] at action
  | kernel action _ _ _ => simp [copying] at action
  | copy _ _ _ holds kernels => exact ⟨rfl, _, holds, kernels⟩
  | store action _ _ _ => simp [copying] at action
  | send action _ _ _ _ => simp [copying] at action

theorem Dataflow.store (laws : roster.Dataflow ready) (bound : id < program.threads) {part : Nat}
    (found : (program.thread id).iteration[part]? = some hold)
    (storing : hold.action = .store ∨ hold.action = .send) :
    part = 0 ∧ hold.waitStatus ≠ statusFree ∧ (program.thread id).run = .buffer ∧
      (program.thread id).iteration = [hold] := by
  cases laws.duty id bound part hold found with
  | fill action _ _ _ => simp [action] at storing
  | kernel action _ _ _ => simp [action] at storing
  | copy action _ _ _ _ => simp [action] at storing
  | store _ wait run holds => exact ⟨rfl, wait, run, holds⟩
  | send _ _ wait run holds => exact ⟨rfl, wait, run, holds⟩

theorem Dataflow.storer (laws : roster.Dataflow ready) (bound : id < program.threads) {part : Nat}
    (found : (program.thread id).iteration[part]? = some hold)
    (storing : hold.action = .store ∨ hold.action = .send) {other : Nat}
    (otherBound : other < program.threads) {served : Hold}
    (holds : (program.thread other).iteration = [served]) (action : served.action = hold.action)
    (ring : served.ring = hold.ring) : other = id := by
  obtain ⟨_, _, _, ownHolds⟩ := laws.store bound found storing
  exact laws.single other otherBound id bound served hold holds ownHolds action ring

theorem serves_first (nonempty : roster.cycle ring ≠ []) (slotBound : slot < program.nbuffer) :
    (roster.visitor ring 0 slot).1 < program.threads ∧
      ∃ hold, (program.thread (roster.visitor ring 0 slot).1).iteration[
        (roster.visitor ring 0 slot).2]? = some hold ∧
        hold.ring = ring ∧ hold.waitStatus = statusFree := by
  have first := List.getElem?_eq_getElem (List.length_pos_iff.mpr nonempty)
  rw [roster.free ring _ first] at first
  exact roster.serves ring 0 slot _ slotBound first

theorem Invariant.visitor_first (invariant : roster.Invariant state)
    (bound : id < program.threads) (current : program.current state id = some hold)
    (first : hold.waitStatus = statusFree) :
    roster.visitor hold.ring 0 (state.locals id).index.n = (id, (state.locals id).hold) := by
  obtain ⟨stage, wait, _, _, visitor⟩ := invariant.station bound current
  have head := List.getElem?_eq_getElem
    (List.length_pos_iff.mpr (invariant.cycle_ne_nil bound current))
  rw [roster.free hold.ring _ head, ← first] at head
  rw [roster.same_stage head wait]
  exact visitor

theorem Invariant.frameOf (invariant : roster.Invariant state) (bound : id < program.threads) :
    program.frameOf id ((program.thread id).iterations (state.locals id)) =
      (state.locals id).index.n + program.nbuffer *
        visits (program.slot id) ((program.thread id).iterations (state.locals id))
          (state.locals id).index.n := by
  rw [Program.frameOf, ← invariant.current_slot bound]

theorem Invariant.frameOf_buffer (invariant : roster.Invariant state)
    (bound : id < program.threads) (run : (program.thread id).run = .buffer) :
    program.frameOf id ((program.thread id).iterations (state.locals id)) =
      (program.thread id).iterations (state.locals id) := by
  apply Program.frameOf_buffer _ run
  have slotBound := invariant.slot_lt bound
  omega

theorem Invariant.label_buffer (invariant : roster.Invariant state)
    (bound : id < program.threads) (run : (program.thread id).run = .buffer) :
    (state.locals id).index.i = (program.thread id).iterations (state.locals id) := by
  have label := Run.label program.nbuffer (program.thread id).run
    ((program.thread id).iterations (state.locals id))
  rw [← invariant.index id bound] at label
  rw [label, run, Run.start, Run.stride, Nat.zero_add, Nat.one_mul]

theorem Flow.read_images (flow : roster.Flow frame kernel state)
    (invariant : roster.Invariant state) (bound : id < program.threads)
    (current : program.current state id = some hold)
    (accessing : (state.locals id).phase = .access) (ring : hold.ring = .images)
    (later : hold.waitStatus ≠ statusFree) :
    state.data.images (state.locals id).index.n =
      frame (program.frameOf id ((program.thread id).iterations (state.locals id))) := by
  have count := invariant.accessed_first bound current accessing later
  have nonempty := invariant.cycle_ne_nil bound current
  rw [ring] at count nonempty
  rw [flow.images nonempty _ (invariant.slot_lt bound) _ count, invariant.frameOf bound]

theorem Flow.read_results (flow : roster.Flow frame kernel state)
    (invariant : roster.Invariant state) (bound : id < program.threads)
    (current : program.current state id = some hold)
    (accessing : (state.locals id).phase = .access) (ring : hold.ring = .results)
    (later : hold.waitStatus ≠ statusFree) :
    state.data.results (state.locals id).index.n =
      kernel (frame (program.frameOf id ((program.thread id).iterations (state.locals id)))) := by
  have count := invariant.accessed_first bound current accessing later
  have nonempty := invariant.cycle_ne_nil bound current
  rw [ring] at count nonempty
  rw [flow.results nonempty _ (invariant.slot_lt bound) _ count, invariant.frameOf bound]

theorem Flow.read_kernel (flow : roster.Flow frame kernel state)
    (invariant : roster.Invariant state) (laws : roster.Dataflow ready)
    (bound : id < program.threads) (current : program.current state id = some hold)
    (accessing : (state.locals id).phase = .access) (reading : hold.action = .kernel) :
    state.data.images (state.locals id).index.n =
      frame (program.frameOf id ((program.thread id).iterations (state.locals id))) := by
  obtain ⟨ring, wait, _⟩ := laws.reads bound (Program.current_some current).2 reading
  exact flow.read_images invariant bound current accessing ring (by rw [wait]; exact laws.busy)

theorem Invariant.accessed_write (invariant : roster.Invariant state)
    (bound : id < program.threads) (current : program.current state id = some hold)
    (accessing : (state.locals id).phase = .access) (first : hold.waitStatus = statusFree)
    {lap : Nat} (count : roster.accessed (state.perform frame kernel id hold) hold.ring
      (state.locals id).index.n 0 = lap + 1) :
    (state.locals id).index.n + program.nbuffer * lap =
      program.frameOf id ((program.thread id).iterations (state.locals id)) := by
  have visiting := invariant.visitor_first bound current first
  rw [invariant.accessed_perform bound accessing, if_pos ⟨visiting, rfl⟩,
    accessed_of_access accessing visiting] at count
  rw [invariant.frameOf bound, Nat.add_right_cancel count]

section Perform

variable (flow : roster.Flow frame kernel state) (invariant : roster.Invariant state)
  (laws : roster.Dataflow ready) (bound : id < program.threads)
  (current : program.current state id = some hold)
  (accessing : (state.locals id).phase = .access)

include flow invariant laws bound current accessing

theorem Flow.perform_images (nonempty : roster.cycle .images ≠ []) (slotBound : slot < program.nbuffer)
    {lap : Nat} (count : roster.accessed (state.perform frame kernel id hold) .images slot 0 =
      lap + 1) :
    (state.perform frame kernel id hold).data.images slot =
      frame (slot + program.nbuffer * lap) := by
  simp only [State.perform, Hold.perform_images]
  have found := (Program.current_some current).2
  by_cases filling : hold.action = .fill
  · have ring := laws.ring_eq bound found (by simp [filling])
    simp only [filling, reduceCtorEq, if_false] at ring
    have first := (laws.writes bound found).mpr (Or.inl filling)
    rw [if_pos filling]
    by_cases target : (state.locals id).index.n = slot
    · subst target
      have run := laws.fill bound found filling
      rw [Function.update_self, invariant.accessed_write bound current accessing first
        (by rw [ring]; exact count), invariant.frameOf_buffer bound run,
        invariant.label_buffer bound run]
    · rw [invariant.accessed_perform bound accessing, if_neg (fun both => target both.2),
        Nat.add_zero] at count
      rw [Function.update_of_ne (Ne.symm target)]
      exact flow.images nonempty slot slotBound lap count
  · rw [if_neg filling]
    obtain ⟨visiting, served, servedFound, servedRing, wait⟩ := serves_first nonempty slotBound
    apply flow.images nonempty slot slotBound lap
    rw [← count]
    refine (accessed_perform_of_ne current accessing servedFound ?_).symm
    rintro rfl
    rcases (laws.writes visiting servedFound).mp wait with action | action
    · exact filling action
    · have ring := laws.ring_eq visiting servedFound (by simp [action])
      simp [action, servedRing] at ring

theorem Flow.perform_results (nonempty : roster.cycle .results ≠ [])
    (slotBound : slot < program.nbuffer) {lap : Nat}
    (count : roster.accessed (state.perform frame kernel id hold) .results slot 0 = lap + 1) :
    (state.perform frame kernel id hold).data.results slot =
      kernel (frame (slot + program.nbuffer * lap)) := by
  simp only [State.perform, Hold.perform_results]
  have found := (Program.current_some current).2
  by_cases copying : hold.action = .copy
  · have ring := laws.ring_eq bound found (by simp [copying])
    simp only [copying, if_true] at ring
    have first := (laws.writes bound found).mpr (Or.inr copying)
    rw [if_pos copying]
    by_cases target : (state.locals id).index.n = slot
    · subst target
      rw [Function.update_self, invariant.accessed_write bound current accessing first
        (by rw [ring]; exact count)]
      -- the image is the kernel of the frame that the same iteration has read
      obtain ⟨part, reading, holds, kernels⟩ := laws.copy bound found copying
      exact flow.image id bound reading hold holds kernels (Or.inl (by omega))
    · rw [invariant.accessed_perform bound accessing, if_neg (fun both => target both.2),
        Nat.add_zero] at count
      rw [Function.update_of_ne (Ne.symm target)]
      exact flow.results nonempty slot slotBound lap count
  · rw [if_neg copying]
    obtain ⟨visiting, served, servedFound, servedRing, wait⟩ := serves_first nonempty slotBound
    apply flow.results nonempty slot slotBound lap
    rw [← count]
    refine (accessed_perform_of_ne current accessing servedFound ?_).symm
    rintro rfl
    rcases (laws.writes visiting servedFound).mp wait with action | action
    · have ring := laws.ring_eq visiting servedFound (by simp [action])
      simp [action, servedRing] at ring
    · exact copying action

theorem Flow.perform_image {other : Nat} (otherBound : other < program.threads) {first second : Hold}
    (holds : (program.thread other).iteration = [first, second]) (kernels : first.action = .kernel)
    (started : 0 < ((state.perform frame kernel id hold).locals other).hold ∨
      ((state.perform frame kernel id hold).locals other).phase = .set) :
    ((state.perform frame kernel id hold).locals other).image =
      kernel (frame (program.frameOf other ((program.thread other).iterations
        ((state.perform frame kernel id hold).locals other)))) := by
  by_cases same : other = id
  · subst same
    have found := (Program.current_some current).2
    simp only [State.perform, Function.update_self, Hold.perform_image, Thread.iterations]
    by_cases reading : hold.action = .kernel
    · rw [if_pos reading, flow.read_kernel invariant laws bound current accessing reading]
      rfl
    · rw [if_neg reading]
      apply flow.image other bound first second holds kernels
      left
      apply Nat.pos_of_ne_zero
      intro part
      rw [part, holds] at found
      exact reading (Option.some.inj found ▸ kernels)
  · simp only [State.perform, Function.update_of_ne same] at started ⊢
    exact flow.image other otherBound first second holds kernels started

theorem Flow.perform_reads {entry : Nat × α}
    (member : entry ∈ (state.perform frame kernel id hold).data.reads slot) :
    ∃ id < program.threads, ∃ first second step, (program.thread id).iteration = [first, second] ∧
      program.slot id step = slot ∧
      entry = (((program.thread id).run.index program.nbuffer step).i,
        frame (program.frameOf id step)) := by
  simp only [State.perform, Hold.perform_reads] at member
  by_cases reading : hold.action = .kernel
  · rw [if_pos reading] at member
    by_cases target : (state.locals id).index.n = slot
    · subst target
      rw [Function.update_self, List.mem_append] at member
      rcases member with before | new
      · exact flow.reads _ entry before
      · obtain ⟨_, _, second, holds⟩ :=
          laws.reads bound (Program.current_some current).2 reading
        refine ⟨id, bound, hold, second, _, holds, (invariant.current_slot bound).symm, ?_⟩
        rw [List.mem_singleton.mp new, flow.read_kernel invariant laws bound current accessing reading,
          ← invariant.index id bound]
    · rw [Function.update_of_ne (Ne.symm target)] at member
      exact flow.reads slot entry member
  · rw [if_neg reading] at member
    exact flow.reads slot entry member

theorem Flow.perform_laps (slotBound : slot < program.nbuffer)
    (stageBound : stage < (roster.cycle .images).length) {served : Hold}
    (servedFound : (program.thread (roster.visitor .images stage slot).1).iteration[
      (roster.visitor .images stage slot).2]? = some served) (kernels : served.action = .kernel) :
    ((state.perform frame kernel id hold).data.reads slot).map Prod.snd =
      (List.range (roster.accessed (state.perform frame kernel id hold) .images slot stage)).map
        fun lap => frame (slot + program.nbuffer * lap) := by
  have before := flow.laps slot slotBound stage stageBound served servedFound kernels
  simp only [State.perform, Hold.perform_reads]
  by_cases reading : hold.action = .kernel
  · rw [if_pos reading]
    by_cases target : (state.locals id).index.n = slot
    · subst target
      obtain ⟨ring, wait, _⟩ := laws.reads bound (Program.current_some current).2 reading
      -- both wait for `ready`, so that the reader is the visitor of this stage
      have visiting : roster.visitor .images stage (state.locals id).index.n =
          (id, (state.locals id).hold) := by
        obtain ⟨ownStage, ownWait, _, _, visitor⟩ := invariant.station bound current
        obtain ⟨servedBound, other, otherFound, _, otherWait⟩ := roster.serves .images stage
          (state.locals id).index.n _ slotBound (List.getElem?_eq_getElem stageBound)
        have same : other = served := Option.some.inj (otherFound.symm.trans servedFound)
        have servedWait := (laws.reads servedBound servedFound kernels).2.1
        rw [ring, wait, ← servedWait, ← same, otherWait] at ownWait
        rw [ring, ← roster.same_stage (List.getElem?_eq_getElem stageBound) ownWait] at visitor
        exact visitor
      have count : roster.accessed (state.perform frame kernel id hold) .images
          (state.locals id).index.n stage =
            roster.accessed state .images (state.locals id).index.n stage + 1 := by
        rw [invariant.accessed_perform bound accessing, if_pos ⟨visiting, rfl⟩]
      rw [State.perform] at count
      rw [Function.update_self, List.map_append, before, count, List.range_succ, List.map_append,
        flow.read_kernel invariant laws bound current accessing reading, invariant.frameOf bound,
        accessed_of_access accessing visiting]
      rfl
    · have count : roster.accessed (state.perform frame kernel id hold) .images slot stage =
          roster.accessed state .images slot stage := by
        rw [invariant.accessed_perform bound accessing, if_neg (fun both => target both.2),
          Nat.add_zero]
      rw [State.perform] at count
      rw [Function.update_of_ne (Ne.symm target), before, count]
  · have count : roster.accessed (state.perform frame kernel id hold) .images slot stage =
        roster.accessed state .images slot stage :=
      accessed_perform_of_ne current accessing servedFound (by rintro rfl; exact reading kernels)
    rw [State.perform] at count
    rw [if_neg reading, before, count]

omit flow in
theorem Invariant.range_perform (storing : hold.action = .store ∨ hold.action = .send) :
    List.range ((program.thread id).accesses
      ((state.perform frame kernel id hold).locals id) 0) =
      List.range ((program.thread id).accesses (state.locals id) 0) ++
        [program.frameOf id ((program.thread id).iterations (state.locals id))] := by
  obtain ⟨part, _, run, _⟩ := laws.store bound (Program.current_some current).2 storing
  rw [accesses_perform accessing, if_pos ⟨rfl, part.symm⟩, List.range_succ,
    invariant.frameOf_buffer bound run]
  simp [Thread.accesses, accessing, part]

theorem Flow.perform_stored {other : Nat} (otherBound : other < program.threads) {served : Hold}
    (holds : (program.thread other).iteration = [served]) (storing : served.action = .store)
    (ring : served.ring = .images) :
    (state.perform frame kernel id hold).data.stored =
      (List.range ((program.thread other).accesses
        ((state.perform frame kernel id hold).locals other) 0)).map frame := by
  have before := flow.stored other otherBound served holds storing ring
  have servedFound : (program.thread other).iteration[0]? = some served := by simp [holds]
  have found := (Program.current_some current).2
  by_cases mine : hold.action = .store ∧ hold.ring = .images
  · have wait := (laws.store bound found (Or.inl mine.1)).2.1
    obtain rfl := laws.storer bound found (Or.inl mine.1) otherBound holds
      (storing.trans mine.1.symm) (ring.trans mine.2.symm)
    rw [invariant.range_perform laws bound current accessing (Or.inl mine.1), List.map_append,
      ← before]
    simp only [State.perform, Hold.perform_stored]
    rw [if_pos mine, flow.read_images invariant bound current accessing mine.2 wait]
    rfl
  · rw [accesses_perform_of_ne current accessing servedFound
      (by rintro rfl; exact mine ⟨storing, ring⟩), ← before]
    simp only [State.perform, Hold.perform_stored]
    rw [if_neg mine]

theorem Flow.perform_storedR {other : Nat} (otherBound : other < program.threads) {served : Hold}
    (holds : (program.thread other).iteration = [served]) (storing : served.action = .store)
    (ring : served.ring = .results) :
    (state.perform frame kernel id hold).data.storedR =
      (List.range ((program.thread other).accesses
        ((state.perform frame kernel id hold).locals other) 0)).map fun i => kernel (frame i) := by
  have before := flow.storedR other otherBound served holds storing ring
  have servedFound : (program.thread other).iteration[0]? = some served := by simp [holds]
  have found := (Program.current_some current).2
  by_cases mine : hold.action = .store ∧ hold.ring = .results
  · have wait := (laws.store bound found (Or.inl mine.1)).2.1
    obtain rfl := laws.storer bound found (Or.inl mine.1) otherBound holds
      (storing.trans mine.1.symm) (ring.trans mine.2.symm)
    rw [invariant.range_perform laws bound current accessing (Or.inl mine.1), List.map_append,
      ← before]
    simp only [State.perform, Hold.perform_storedR]
    rw [if_pos mine, flow.read_results invariant bound current accessing mine.2 wait]
    rfl
  · rw [accesses_perform_of_ne current accessing servedFound
      (by rintro rfl; exact mine ⟨storing, ring⟩), ← before]
    simp only [State.perform, Hold.perform_storedR]
    rw [if_neg mine]

theorem Flow.perform_sent {other : Nat} (otherBound : other < program.threads) {served : Hold}
    (holds : (program.thread other).iteration = [served]) (sending : served.action = .send) :
    (state.perform frame kernel id hold).data.sent =
      (List.range ((program.thread other).accesses
        ((state.perform frame kernel id hold).locals other) 0)).map frame := by
  have before := flow.sent other otherBound served holds sending
  have servedFound : (program.thread other).iteration[0]? = some served := by simp [holds]
  have found := (Program.current_some current).2
  by_cases mine : hold.action = .send
  · have wait := (laws.store bound found (Or.inr mine)).2.1
    have ring := laws.ring_eq bound found (by simp [mine])
    have servedRing := laws.ring_eq otherBound servedFound (by simp [sending])
    simp only [mine, sending, reduceCtorEq, if_false] at ring servedRing
    obtain rfl := laws.storer bound found (Or.inr mine) otherBound holds
      (sending.trans mine.symm) (servedRing.trans ring.symm)
    rw [invariant.range_perform laws bound current accessing (Or.inr mine), List.map_append,
      ← before]
    simp only [State.perform, Hold.perform_sent]
    rw [if_pos mine, flow.read_images invariant bound current accessing ring wait]
    rfl
  · rw [accesses_perform_of_ne current accessing servedFound
      (by rintro rfl; exact mine sending), ← before]
    simp only [State.perform, Hold.perform_sent]
    rw [if_neg mine]

theorem Flow.perform : roster.Flow frame kernel (state.perform frame kernel id hold) := by
  constructor
  · intro nonempty slot slotBound lap count
    exact flow.perform_images invariant laws bound current accessing nonempty slotBound count
  · intro nonempty slot slotBound lap count
    exact flow.perform_results invariant laws bound current accessing nonempty slotBound count
  · intro other otherBound first second holds kernels started
    exact flow.perform_image invariant laws bound current accessing otherBound holds kernels started
  · intro slot entry member
    exact flow.perform_reads invariant laws bound current accessing member
  · intro slot slotBound stage stageBound served found kernels
    exact flow.perform_laps invariant laws bound current accessing slotBound stageBound found kernels
  · intro other otherBound served holds storing ring
    exact flow.perform_stored invariant laws bound current accessing otherBound holds storing ring
  · intro other otherBound served holds storing ring
    exact flow.perform_storedR invariant laws bound current accessing otherBound holds storing ring
  · intro other otherBound served holds sending
    exact flow.perform_sent invariant laws bound current accessing otherBound holds sending

end Perform

theorem Flow.acquire (flow : roster.Flow frame kernel state) (place : Ring × Nat)
    (status : Taccess) (waiting : (state.locals id).phase = .wait) :
    roster.Flow frame kernel { state with
      access := Function.update state.access place status
      locals := Function.update state.locals id { state.locals id with phase := .access } } := by
  refine flow.unchanged (by rfl) ?_ ?_
  · intro other _ part _
    by_cases same : other = id
    · subst same
      simp only [Function.update_self]
      exact Thread.accesses_acquire waiting
    · simp [same]
  · intro other _ _ started
    by_cases same : other = id
    · subst same
      have next : 0 < (state.locals other).hold := by simpa using started
      simp [next]
    · simpa [same] using started

theorem Flow.release (flow : roster.Flow frame kernel state) (invariant : roster.Invariant state)
    (bound : id < program.threads) (current : program.current state id = some hold)
    (place : Ring × Nat) (status : Taccess) (setting : (state.locals id).phase = .set) :
    roster.Flow frame kernel { state with
      access := Function.update state.access place status
      locals := Function.update state.locals id
        ((state.locals id).advance program.nbuffer (program.thread id)) } := by
  have held := (List.getElem?_eq_some_iff.mp (Program.current_some current).2).1
  refine flow.unchanged (by rfl) ?_ ?_
  · intro other _ part partBound
    by_cases same : other = id
    · subst same
      simp only [Function.update_self]
      exact Thread.accesses_advance (roster.stride other bound) (invariant.index other bound)
        partBound held setting
    · simp [same]
  · intro other _ _ started
    by_cases same : other = id
    · subst same
      simp only [Function.update_self, Local.advance] at started ⊢
      split at started
      · rename_i within
        simp [within, setting]
      · simp at started
    · simpa [same] using started

theorem Flow.step (flow : roster.Flow frame kernel state) (invariant : roster.Invariant state)
    (laws : roster.Dataflow ready) (bound : id < program.threads) :
    roster.Flow frame kernel (program.step frame kernel state id) := by
  rcases program.step_cases frame kernel id invariant.exited with idle | ⟨hold, current, step⟩
  · rw [idle]
    exact flow
  · rcases step with ⟨waiting, _, taken⟩ | ⟨accessing, taken⟩ | ⟨setting, _, taken⟩ |
      ⟨setting, lost, _⟩
    · rw [taken]
      exact flow.acquire _ _ waiting
    · rw [taken]
      exact flow.perform invariant laws bound current accessing
    · rw [taken]
      exact flow.release invariant bound current _ _ setting
    · obtain ⟨_, _, occupied⟩ := invariant.occupied bound
        (⟨current, by simp [setting], rfl⟩ : program.Holds state id hold (state.place id hold))
      exact (lost occupied.status).elim

theorem flow_of_reachable (roster : Roster program) (laws : roster.Dataflow ready)
    (reachable : program.Reachable frame kernel state) :
    roster.Invariant state ∧ roster.Flow frame kernel state := by
  apply Transition.Reachable.invariant _ _ reachable
  · exact fun first initial => ⟨Invariant.initial initial, Flow.initial initial⟩
  · rintro before after ⟨invariant, flow⟩ ⟨id, bound, rfl⟩
    exact ⟨invariant.step bound, flow.step invariant laws bound⟩

theorem served_le_accessed : roster.served state ring slot stage ≤
    roster.accessed state ring slot stage := by
  simp only [served, accessed]
  exact visits_mono _ _ Thread.releases_le_accesses

theorem Invariant.served_first (invariant : roster.Invariant state) (bound : id < program.threads)
    (held : program.Holds state id hold (ring, slot)) (first : hold.waitStatus = statusFree)
    (stageBound : stage < (roster.cycle ring).length) :
    roster.served state ring slot stage =
      visits (program.slot id) ((program.thread id).iterations (state.locals id)) slot := by
  obtain ⟨baton, counts, occupied⟩ := invariant.occupied bound held
  have head := List.getElem?_eq_getElem (Nat.lt_of_le_of_lt (Nat.zero_le _) stageBound)
  rw [roster.free ring _ head, ← first] at head
  have start : (baton.stage : Nat) = 0 := roster.same_stage occupied.wait head
  have own := counts baton.stage baton.stage.isLt
  rw [Baton.served_stage] at own
  rw [counts stage stageBound, Baton.served_of_ge baton (by omega), ← own]
  simp [served, occupied.visitor, Thread.releases]

theorem Invariant.iterations_step (invariant : roster.Invariant state)
    (bound : id < program.threads) (other : Nat) :
    (program.thread other).iterations ((program.step frame kernel state id).locals other) =
        (program.thread other).iterations (state.locals other) ∨
      other = id ∧ (state.locals id).index.i < program.count ∧
        (program.thread id).iterations ((program.step frame kernel state id).locals id) =
          (program.thread id).iterations (state.locals id) + 1 := by
  by_cases same : other = id
  · subst same
    rcases program.step_cases frame kernel other invariant.exited with idle | ⟨hold, current, step⟩
    · left
      rw [idle]
    · rcases step with ⟨_, _, taken⟩ | ⟨_, taken⟩ | ⟨_, _, taken⟩ | ⟨_, _, taken⟩
      · left
        simp [taken, Thread.iterations]
      · left
        simp [taken, State.perform, Thread.iterations]
      · have advance := (Thread.iterations_advance (roster.stride other bound)
          (invariant.index other bound)).2
        rw [taken]
        simp only [Function.update_self]
        rw [advance]
        split
        · exact Or.inl rfl
        · exact Or.inr ⟨trivial, (Program.current_some current).1, rfl⟩
      · left
        rw [taken]
  · left
    rcases program.step_cases frame kernel id invariant.exited with idle | ⟨hold, current, step⟩
    · rw [idle]
    · rcases step with ⟨_, _, taken⟩ | ⟨_, taken⟩ | ⟨_, _, taken⟩ | ⟨_, _, taken⟩ <;>
        simp [taken, same, State.perform]

theorem Invariant.accesses_step (invariant : roster.Invariant state)
    (bound : id < program.threads) {reader part : Nat}
    (within : part < (program.thread reader).iteration.length)
    (idle : reader = id → program.Running state id → (state.locals id).phase ≠ .access) :
    (program.thread reader).accesses ((program.step frame kernel state id).locals reader) part =
      (program.thread reader).accesses (state.locals reader) part := by
  rcases program.step_cases frame kernel id invariant.exited with same | ⟨hold, current, step⟩
  · rw [same]
  · have running : program.Running state id := by
      rw [Program.Running, current, Option.isSome_some]
    by_cases mine : reader = id
    · subst mine
      have held := (List.getElem?_eq_some_iff.mp (Program.current_some current).2).1
      rcases step with ⟨waiting, _, taken⟩ | ⟨accessing, _⟩ | ⟨setting, _, taken⟩ | ⟨_, _, taken⟩
      · simp only [taken, Function.update_self]
        exact Thread.accesses_acquire waiting
      · exact (idle rfl running accessing).elim
      · simp only [taken, Function.update_self]
        exact Thread.accesses_advance (roster.stride reader bound) (invariant.index reader bound)
          within held setting
      · simp only [taken]
    · rcases step with ⟨_, _, taken⟩ | ⟨_, taken⟩ | ⟨_, _, taken⟩ | ⟨_, _, taken⟩ <;>
        simp [taken, State.perform, mine]

theorem Invariant.middle_step (invariant : roster.Invariant state)
    (bound : id < program.threads) {other : Nat}
    (middle : 0 < (state.locals other).hold → program.Running state other)
    (started : 0 < ((program.step frame kernel state id).locals other).hold) :
    program.Running (program.step frame kernel state id) other := by
  rcases program.step_cases frame kernel id invariant.exited with idle | ⟨hold, current, step⟩
  · rw [idle] at started ⊢
    exact middle started
  · rcases step with ⟨_, _, taken⟩ | ⟨_, taken⟩ | ⟨_, _, taken⟩ | ⟨_, _, taken⟩
    · rw [taken] at started ⊢
      by_cases same : other = id
      · subst same
        simpa [Program.Running, Program.current] using middle (by simpa using started)
      · simpa [Program.Running, Program.current, same] using middle (by simpa [same] using started)
    · rw [taken] at started ⊢
      by_cases same : other = id
      · subst same
        simpa [Program.Running, Program.current, State.perform] using
          middle (by simpa [State.perform] using started)
      · simpa [Program.Running, Program.current, State.perform, same] using
          middle (by simpa [State.perform, same] using started)
    · rw [taken] at started ⊢
      by_cases same : other = id
      · subst same
        have running := (Program.current_some current).1
        simp only [Program.Running, Program.current, Function.update_self, Local.advance]
          at started ⊢
        split at started
        · rename_i within
          simp [within, running]
        · simp at started
      · simpa [Program.Running, Program.current, same] using middle (by simpa [same] using started)
    · rw [taken] at started ⊢
      exact middle started

/-- Every iteration that a thread has left was one of its loop, and so is the
one it is in the middle of. -/
structure Loops (program : Program) (state : State α β) : Prop where
  left : ∀ id < program.threads, ∀ step < (program.thread id).iterations (state.locals id),
    ((program.thread id).run.index program.nbuffer step).i < program.count
  middle : ∀ id < program.threads, 0 < (state.locals id).hold → program.Running state id

theorem loops_of_reachable (roster : Roster program)
    (reachable : program.Reachable frame kernel state) : Loops program state := by
  have all : roster.Invariant state ∧ Loops program state := by
    apply Transition.Reachable.invariant _ _ reachable
    · intro first initial
      refine ⟨Invariant.initial initial, ?_, ?_⟩
      · intro id _ step left
        simp [Thread.iterations, initial.index, Run.first] at left
      · intro id _ started
        simp [initial.hold] at started
    · rintro before after ⟨invariant, loops⟩ ⟨mover, moverBound, rfl⟩
      refine ⟨invariant.step moverBound, ?_, ?_⟩
      · intro id bound step left
        have moved : (program.thread id).iterations
            ((program.step frame kernel before mover).locals id) = _ ∨ _ :=
          invariant.iterations_step moverBound id
        rcases moved with same | ⟨same, running, more⟩
        · exact loops.left id bound step (same ▸ left)
        · subst same
          by_cases last : step = (program.thread id).iterations (before.locals id)
          · rw [last, ← invariant.index id bound]
            exact running
          · exact loops.left id bound step (by omega)
      · intro id bound started
        exact invariant.middle_step moverBound (loops.middle id bound) started
  exact all.2

theorem Loops.accesses_le_count (loops : Loops program state) (invariant : roster.Invariant state)
    (bound : id < program.threads) (run : (program.thread id).run = .buffer) :
    (program.thread id).accesses (state.locals id) 0 ≤ program.count := by
  have iterations : (program.thread id).iterations (state.locals id) ≤ program.count := by
    by_contra more
    have last := loops.left id bound program.count (by omega)
    rw [run, Run.label, Run.start, Run.stride] at last
    omega
  by_cases started : 0 < (state.locals id).hold ∨
      0 = (state.locals id).hold ∧ (state.locals id).phase = .set
  · have running : program.Running state id := by
      rcases started with middle | ⟨_, setting⟩
      · exact loops.middle id bound middle
      · exact invariant.busy id bound (by simp [setting])
    obtain ⟨current, found⟩ := Option.isSome_iff_exists.mp running
    have label := invariant.label_buffer bound run
    have within := (Program.current_some found).1
    rw [Thread.accesses, if_pos started]
    omega
  · rw [Thread.accesses, if_neg started]
    exact iterations

end Roster

end RockAMali
