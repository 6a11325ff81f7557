import Mathlib.Algebra.Order.BigOperators.Group.Finset
import RockAMali.Pipelines

/-!
How many frames are between the first and the last thread of a program. The
stations of a slot are at most one visit apart, so that the stores are never
ahead of the generator and never more than three rings behind it.
-/

namespace RockAMali

open Relay

namespace Roster

variable {α β : Type*} {frame : Nat → α} {kernel : α → β} {program : Program}
  {state : State α β} {id : Nat} {ring : Ring} {slot stage later : Nat} {roster : Roster program}

theorem accessed_le_served_succ :
    roster.accessed state ring slot stage ≤ roster.served state ring slot stage + 1 := by
  simp only [accessed, served]
  have last : (program.thread (roster.visitor ring stage slot).1).accesses
      (state.locals (roster.visitor ring stage slot).1) (roster.visitor ring stage slot).2 ≤
      (program.thread (roster.visitor ring stage slot).1).releases
        (state.locals (roster.visitor ring stage slot).1) (roster.visitor ring stage slot).2 + 1 := by
    simp only [Thread.accesses, Thread.releases]
    split <;> split <;> omega
  apply Nat.le_trans (visits_mono _ _ last)
  rw [visits_succ]
  split <;> omega

theorem Invariant.accessed_baton (invariant : roster.Invariant state)
    (slotBound : slot < program.nbuffer) (stageBound : stage < (roster.cycle ring).length)
    {baton : Baton (roster.cycle ring).length} (placed : roster.Placed state ring slot baton) :
    roster.accessed state ring slot stage ≤
      baton.served stage + if stage = baton.stage then 1 else 0 := by
  rw [← placed.1 stage stageBound]
  by_cases here : stage = baton.stage
  · rw [if_pos here]
    exact accessed_le_served_succ
  · rw [if_neg here, Nat.add_zero]
    apply Nat.le_of_eq
    apply invariant.accessed_of_not_set slotBound stageBound
    intro hold held part
    have bound := (roster.serves ring stage slot _ slotBound
      (List.getElem?_eq_getElem stageBound)).1
    have visiting : roster.visitor ring stage slot =
        ((roster.visitor ring stage slot).1,
          (state.locals (roster.visitor ring stage slot).1).hold) := Prod.ext rfl part.symm
    rcases placed.2 with vacant | ⟨owner, ownerBound, other, occupied⟩
    · exact vacant.nobody _ bound hold held
    · have same := occupied.alone _ bound hold held
      have current := (visitor_current slotBound stageBound visiting held.current).2
      have wait := occupied.wait
      rw [← same] at occupied
      rw [Option.some.inj (occupied.holds.current.symm.trans held.current)] at wait
      exact here (roster.same_stage current wait)

theorem Invariant.accessed_later (invariant : roster.Invariant state)
    (slotBound : slot < program.nbuffer) (order : stage < later)
    (laterBound : later < (roster.cycle ring).length) :
    roster.accessed state ring slot later ≤ roster.accessed state ring slot stage := by
  have nonempty := List.ne_nil_of_length_pos (Nat.zero_lt_of_lt laterBound)
  obtain ⟨baton, placed⟩ := invariant.placed ring nonempty slot slotBound
  have accessed := invariant.accessed_baton slotBound laterBound placed
  have served := placed.1 stage (Nat.lt_trans order laterBound)
  have before : roster.served state ring slot stage ≤ roster.accessed state ring slot stage :=
    served_le_accessed
  simp only [Baton.served] at accessed served
  split at accessed <;> split at accessed <;> split at served <;> omega

theorem Invariant.accessed_first_le (invariant : roster.Invariant state)
    (slotBound : slot < program.nbuffer) (stageBound : stage < (roster.cycle ring).length) :
    roster.accessed state ring slot 0 ≤ roster.served state ring slot stage + 1 := by
  have nonempty := List.ne_nil_of_length_pos (Nat.zero_lt_of_lt stageBound)
  obtain ⟨baton, placed⟩ := invariant.placed ring nonempty slot slotBound
  have accessed := invariant.accessed_baton slotBound (List.length_pos_iff.mpr nonempty) placed
  have served := placed.1 stage stageBound
  simp only [Baton.served] at accessed served
  split at accessed <;> split at accessed <;> split at served <;> omega

theorem accessed_part_le {part : Nat} (visitor : roster.visitor ring stage slot = (id, part))
    {other : Ring} {earlier : Nat}
    (visitorEarlier : roster.visitor other later slot = (id, earlier)) (order : earlier ≤ part) :
    roster.accessed state ring slot stage ≤ roster.accessed state other slot later := by
  simp only [accessed, visitor, visitorEarlier]
  apply visits_mono
  have started : part < (state.locals id).hold ∨
      part = (state.locals id).hold ∧ (state.locals id).phase = .set →
        earlier < (state.locals id).hold ∨
          earlier = (state.locals id).hold ∧ (state.locals id).phase = .set := by
    rintro (inside | ⟨here, setting⟩)
    · exact Or.inl (Nat.lt_of_le_of_lt order inside)
    · rcases Nat.lt_or_eq_of_le order with before | same
      · exact Or.inl (here ▸ before)
      · exact Or.inr ⟨same.trans here, setting⟩
  simp only [Thread.accesses]
  split
  · rename_i now
    rw [if_pos (started now)]
  · omega

theorem Invariant.served_part_le (invariant : roster.Invariant state) {part : Nat}
    (bound : id < program.threads) (visitor : roster.visitor ring stage slot = (id, part))
    {other : Ring} {next : Nat} (visitorNext : roster.visitor other later slot = (id, next)) :
    roster.served state ring slot stage ≤ roster.accessed state other slot later +
      if (state.locals id).index.n = slot then 1 else 0 := by
  have released : (program.thread id).releases (state.locals id) part ≤
      (program.thread id).iterations (state.locals id) + 1 := by
    simp only [Thread.releases]
    split <;> omega
  have accessed : (program.thread id).iterations (state.locals id) ≤
      (program.thread id).accesses (state.locals id) next := Nat.le_add_right _ _
  have before := visits_mono (program.slot id) slot released
  have after := visits_mono (program.slot id) slot accessed
  rw [visits_succ] at before
  simp only [Roster.accessed, served, visitor, visitorNext, invariant.current_slot bound]
  omega

structure Source (roster : Roster program) : Prop where
  bound : 0 < program.threads
  run : (program.thread 0).run = .buffer
  visitor : ∀ slot, roster.visitor .images 0 slot = (0, 0)

structure Processed (roster : Roster program) (readers : Finset Nat) (store : Nat) : Prop where
  images : 1 < (roster.cycle .images).length
  results : 1 < (roster.cycle .results).length
  within : ∀ reader ∈ readers, reader < program.threads
  kernel : ∀ slot, ∃ reader ∈ readers, roster.visitor .images 1 slot = (reader, 0) ∧
    roster.visitor .results 0 slot = (reader, 1)
  run : (program.thread store).run = .buffer
  visitor : ∀ slot, roster.visitor .results 1 slot = (store, 0)

structure Forwarded (roster : Roster program) (stage last : Nat) : Prop where
  later : 0 < stage
  stages : stage < (roster.cycle .images).length
  run : (program.thread last).run = .buffer
  visitor : ∀ slot, roster.visitor .images stage slot = (last, 0)

theorem sum_accessed (state : State α β) (positive : 0 < program.nbuffer) {part : Nat}
    (run : (program.thread id).run = .buffer)
    (visitor : ∀ slot, roster.visitor ring stage slot = (id, part)) :
    ∑ slot ∈ Finset.range program.nbuffer, roster.accessed state ring slot stage =
      (program.thread id).accesses (state.locals id) part := by
  have slots : program.slot id = Run.buffer.slot program.nbuffer := by
    funext step
    rw [Program.slot, run]
  simp only [accessed, visitor, slots]
  exact sum_visits fun step => by
    rw [Run.slot_buffer positive]
    exact Nat.mod_lt step positive

section Backlog

variable (source : roster.Source) (invariant : roster.Invariant state)

include source invariant

theorem Source.positive : 0 < program.nbuffer := by
  have slotBound := invariant.slot_lt source.bound
  omega

theorem Forwarded.backlog {last : Nat} (forwarded : roster.Forwarded stage last) :
    (program.thread last).accesses (state.locals last) 0 ≤
        (program.thread 0).accesses (state.locals 0) 0 ∧
      (program.thread 0).accesses (state.locals 0) 0 ≤
        (program.thread last).accesses (state.locals last) 0 + program.nbuffer := by
  have positive := source.positive invariant
  rw [← sum_accessed state positive source.run source.visitor,
    ← sum_accessed state positive forwarded.run forwarded.visitor]
  constructor
  · apply Finset.sum_le_sum
    intro slot inside
    exact invariant.accessed_later (Finset.mem_range.mp inside) forwarded.later forwarded.stages
  · calc ∑ slot ∈ Finset.range program.nbuffer, roster.accessed state .images slot 0
        ≤ ∑ slot ∈ Finset.range program.nbuffer,
            (roster.accessed state .images slot stage + 1) := by
          apply Finset.sum_le_sum
          intro slot inside
          apply Nat.le_trans (invariant.accessed_first_le (Finset.mem_range.mp inside)
            forwarded.stages)
          exact Nat.add_le_add_right served_le_accessed 1
      _ = _ := by simp [Finset.sum_add_distrib]

/-- At most one frame a slot waits for a processing thread, each of these has one
in between, and at most one a slot waits for the store. -/
theorem Processed.backlog {readers : Finset Nat} {store : Nat}
    (processed : roster.Processed readers store) :
    (program.thread store).accesses (state.locals store) 0 ≤
        (program.thread 0).accesses (state.locals 0) 0 ∧
      (program.thread 0).accesses (state.locals 0) 0 ≤
        (program.thread store).accesses (state.locals store) 0 +
          2 * program.nbuffer + readers.card := by
  have positive := source.positive invariant
  rw [← sum_accessed state positive source.run source.visitor,
    ← sum_accessed state positive processed.run processed.visitor]
  constructor
  · apply Finset.sum_le_sum
    intro slot inside
    have slotBound := Finset.mem_range.mp inside
    obtain ⟨reader, _, kernel, copy⟩ := processed.kernel slot
    calc roster.accessed state .results slot 1
        ≤ roster.accessed state .results slot 0 :=
          invariant.accessed_later slotBound Nat.one_pos processed.results
      _ ≤ roster.accessed state .images slot 1 :=
          accessed_part_le copy kernel (Nat.zero_le 1)
      _ ≤ roster.accessed state .images slot 0 :=
          invariant.accessed_later slotBound Nat.one_pos processed.images
  · choose reader member kernel copy using processed.kernel
    let middle := (Finset.range program.nbuffer).filter fun slot =>
      (state.locals (reader slot)).index.n = slot
    have few : middle.card ≤ readers.card := by
      apply Finset.card_le_card_of_injOn reader
      · intro slot _
        exact member slot
      · intro first firstIn second secondIn same
        have firstSlot := (Finset.mem_filter.mp firstIn).2
        have secondSlot := (Finset.mem_filter.mp secondIn).2
        rw [← firstSlot, same, secondSlot]
    have each (slot : Nat) (slotBound : slot < program.nbuffer) :
        roster.accessed state .images slot 0 ≤ roster.accessed state .results slot 1 + 2 +
          if (state.locals (reader slot)).index.n = slot then 1 else 0 := by
      have images := invariant.accessed_first_le slotBound processed.images
      have between := invariant.served_part_le (processed.within _ (member slot))
        (kernel slot) (copy slot)
      have results := invariant.accessed_first_le slotBound processed.results
      have last : roster.served state .results slot 1 ≤ roster.accessed state .results slot 1 :=
        served_le_accessed
      omega
    calc ∑ slot ∈ Finset.range program.nbuffer, roster.accessed state .images slot 0
        ≤ ∑ slot ∈ Finset.range program.nbuffer, (roster.accessed state .results slot 1 + 2 +
            if (state.locals (reader slot)).index.n = slot then 1 else 0) := by
          apply Finset.sum_le_sum
          intro slot inside
          exact each slot (Finset.mem_range.mp inside)
      _ = ∑ slot ∈ Finset.range program.nbuffer, roster.accessed state .results slot 1 +
            2 * program.nbuffer + middle.card := by
          rw [Finset.sum_add_distrib, Finset.sum_add_distrib, Finset.sum_const, Finset.card_range,
            nsmul_eq_mul, Nat.cast_id, Nat.mul_comm program.nbuffer, ← Finset.card_filter]
      _ ≤ _ := Nat.add_le_add_left few _

end Backlog

end Roster

section Programs

variable {α β : Type*} {frame : Nat → α} {kernel : α → β} {nbuffer count stride tn : Nat}

def Program.filled (program : Program) (state : State α β) : Nat :=
  (program.thread 0).accesses (state.locals 0) 0

theorem receive_filled (positive : 0 < stride) (fits : stride ≤ nbuffer) {state : State α β}
    (reachable : (receive nbuffer count (stride + 3)).Reachable frame kernel state) :
    let filled := (receive nbuffer count (stride + 3)).filled state
    (∃ stored, state.data.stored = (List.range stored).map frame ∧
      stored ≤ filled ∧ filled ≤ stored + nbuffer) ∧
    ∃ stored, state.data.storedR = (List.range stored).map (fun i => kernel (frame i)) ∧
      stored ≤ filled ∧ filled ≤ stored + 2 * nbuffer + stride := by
  let roster := receiveRoster nbuffer count stride positive fits
  have laws : roster.Dataflow statusReceived := receiveRoster_dataflow positive fits
  obtain ⟨invariant, flow⟩ := Roster.flow_of_reachable _ laws reachable
  have source : roster.Source := ⟨Nat.succ_pos _, rfl, fun _ => rfl⟩
  have forwarded : roster.Forwarded 2 1 :=
    ⟨Nat.two_pos, (by decide : 2 < 3), rfl, fun _ => rfl⟩
  have processed : roster.Processed (Finset.Ico 3 (stride + 3)) 2 := by
    refine ⟨(by decide : 1 < 3), (by decide : 1 < 2), ?_, ?_, rfl, fun _ => rfl⟩
    · intro reader member
      exact (Finset.mem_Ico.mp member).2
    · intro slot
      have offset := Nat.mod_lt slot positive
      exact ⟨slot % stride + 3, Finset.mem_Ico.mpr (by omega), rfl, rfl⟩
  have backlog := processed.backlog source invariant
  rw [Nat.card_Ico, Nat.add_sub_cancel] at backlog
  constructor
  · exact ⟨_, flow.stored 1 (by simp only [receive]; omega) _ rfl rfl rfl,
      forwarded.backlog source invariant⟩
  · exact ⟨_, flow.storedR 2 (by simp only [receive]; omega) _ rfl rfl rfl, backlog⟩

theorem receiveOnly_filled (positive : 0 < nbuffer) {state : State α β}
    (reachable : (receive nbuffer count 2).Reachable frame kernel state) :
    let filled := (receive nbuffer count 2).filled state
    ∃ stored, state.data.stored = (List.range stored).map frame ∧
      stored ≤ filled ∧ filled ≤ stored + nbuffer := by
  let roster := receiveOnlyRoster nbuffer count positive
  have laws : roster.Dataflow statusReceived := receiveOnlyRoster_dataflow positive
  obtain ⟨invariant, flow⟩ := Roster.flow_of_reachable _ laws reachable
  have source : roster.Source := ⟨Nat.succ_pos _, rfl, fun _ => rfl⟩
  have forwarded : roster.Forwarded 1 1 :=
    ⟨Nat.one_pos, (by decide : 1 < 2), rfl, fun _ => rfl⟩
  exact ⟨_, flow.stored 1 Nat.one_lt_two _ rfl rfl rfl, forwarded.backlog source invariant⟩

theorem process_backlog (positive : 0 < stride) (fits : stride ≤ nbuffer) :
    (∀ state : State α β, (process nbuffer count (stride + 2)).Reachable frame kernel state →
      let filled := (process nbuffer count (stride + 2)).filled state
      state.data.storedR.length ≤ filled ∧
        filled ≤ state.data.storedR.length + 2 * nbuffer + stride) ∧
    ∀ state : State α β, (receive nbuffer count (stride + 3)).Reachable frame kernel state →
      let filled := (receive nbuffer count (stride + 3)).filled state
      (state.data.storedR.length ≤ filled ∧
        filled ≤ state.data.storedR.length + 2 * nbuffer + stride) ∧
      state.data.stored.length ≤ filled ∧ filled ≤ state.data.stored.length + nbuffer := by
  constructor
  · intro state reachable
    let roster := processRoster nbuffer count stride positive fits
    have laws : roster.Dataflow statusFilled := processRoster_dataflow positive fits
    obtain ⟨invariant, flow⟩ := Roster.flow_of_reachable _ laws reachable
    have source : roster.Source := ⟨Nat.succ_pos _, rfl, fun _ => rfl⟩
    have processed : roster.Processed (Finset.Ico 2 (stride + 2)) 1 := by
      refine ⟨(by decide : 1 < 2), (by decide : 1 < 2), ?_, ?_, rfl, fun _ => rfl⟩
      · intro reader member
        exact (Finset.mem_Ico.mp member).2
      · intro slot
        have offset := Nat.mod_lt slot positive
        exact ⟨slot % stride + 2, Finset.mem_Ico.mpr (by omega), rfl, rfl⟩
    have backlog := processed.backlog source invariant
    rw [Nat.card_Ico, Nat.add_sub_cancel] at backlog
    rw [flow.storedR 1 (by simp only [process]; omega) _ rfl rfl rfl, List.length_map,
      List.length_range]
    exact backlog
  · intro state reachable
    obtain ⟨⟨raw, stored, few⟩, results, storedR, fewR⟩ := receive_filled positive fits reachable
    rw [stored, storedR, List.length_map, List.length_map, List.length_range, List.length_range]
    exact ⟨fewR, few⟩

/-- The bound is reached: one frame in each ring and one with the processing thread. -/
theorem process_backlog_full :
    let state := (process 1 3 3).run id (· + 7)
      [0, 0, 0, 2, 2, 2, 0, 0, 0, 2, 2, 2, 2, 2, 2, 0, 0] ((process 1 3 3).start 0 0)
    ((process 1 3 3).filled state = 3 ∧ state.data.storedR.length = 0) ∧
      (process 1 3 3).filled state ≤ state.data.storedR.length + 2 * 1 + 1 := by
  intro state
  have reachable : (process 1 3 (1 + 2)).Reachable id (· + 7) state :=
    Program.run_reachable (by decide) (.start (Program.start_initial 0 0))
  refine ⟨by decide +kernel, ?_⟩
  clear_value state
  exact ((process_backlog (by decide) (by decide)).1 state reachable).2

end Programs

end RockAMali
