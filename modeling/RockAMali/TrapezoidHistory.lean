import RockAMali.TrapezoidProcessor

/-!
What `CDataProcessor_trapezoid` keeps from frame to frame. Its scratch images
are assigned in the first iteration only, under a flag that one of the two
places sets, but each sample that is read was written for the same frame.
-/

namespace RockAMali

open CImg Loop

section Filter

variable {K : Type*} [CommRing K] {condition : Prop} {size length : Nat} {e f s t : CImg K}

theorem trapezoidalFilter_rel (frames : AgreeBelow condition size size e f)
    (width : s.width = length) (otherWidth : t.width = length) (ks ms : Int) (alp : K)
    (decalage : Int) :
    Option.Rel (AgreeBelow condition length length) (trapezoidalFilter e s ks ms alp decalage)
      (trapezoidalFilter f t ks ms alp decalage) := by
  rw [trapezoidalFilter, trapezoidalFilter, width, otherWidth]
  -- the samples before `decalage` are set, the others are sums of earlier ones
  have first : Option.Rel (AgreeBelow condition length decalage)
      (cimgForInX length 0 (decalage - 1) (fun n s => do s.write n (← e.read 0)) s)
      (cimgForInX length 0 (decalage - 1) (fun n s => do s.write n (← f.read 0)) t) := by
    apply cimgForInX_rel (AgreeBelow condition length)
    · exact .of_width width otherWidth
    · intro i _ _ _ current other agree
      exact bind_rel (frames.read_all 0) fun _ _ same => agree.write same
    · intro stop _ _ past current other agree
      exact agree.extend (by omega)
  refine bind_rel first fun current other start => ?_
  rw [start.width, start.otherWidth]
  apply cimgForInX_rel (AgreeBelow condition length)
  · split
    · exact .of_width start.width start.otherWidth
    · exact start
  · intro i _ _ _ current other agree
    refine bind_rel (agree.read (by omega : i - 1 < i)) fun s1 t1 same1 => ?_
    refine bind_rel (agree.read (by omega : i - 2 < i)) fun s2 t2 same2 => ?_
    refine bind_rel (frames.read_all (i - 1)) fun e1 f1 sameE1 => ?_
    refine bind_rel (frames.read_all (i - 2)) fun e2 f2 sameE2 => ?_
    refine bind_rel (frames.read_all (i - (ks + 1))) fun e3 f3 sameE3 => ?_
    refine bind_rel (frames.read_all (i - (ks + 2))) fun e4 f4 sameE4 => ?_
    refine bind_rel (frames.read_all (i - (ks + ms + 1))) fun e5 f5 sameE5 => ?_
    refine bind_rel (frames.read_all (i - (ks + ms + 2))) fun e6 f6 sameE6 => ?_
    refine bind_rel (frames.read_all (i - (2 * ks + ms + 1))) fun e7 f7 sameE7 => ?_
    refine bind_rel (frames.read_all (i - (2 * ks + ms + 2))) fun e8 f8 sameE8 => ?_
    apply agree.write
    intro same
    rw [same1 same, same2 same, sameE1 same, sameE2 same, sameE3 same, sameE4 same, sameE5 same,
      sameE6 same, sameE7 same, sameE8 same]
  · intro stop _ _ past current other agree
    exact agree.extend (by omega)

theorem discriSimple_rel (frames : AgreeBelow condition size size e f) (width : s.width = length)
    (otherWidth : t.width = length) (alp : K) :
    Option.Rel (AgreeBelow condition length length) (discriSimple e s alp) (discriSimple f t alp) := by
  have first : Option.Rel (AgreeBelow condition length 1) (s.write 0 0) (t.write 0 0) :=
    AgreeBelow.write (.of_width width otherWidth) fun _ => rfl
  refine bind_rel first fun current other start => ?_
  rw [start.width, start.otherWidth]
  apply cimgForInX_rel (AgreeBelow condition length)
  · exact start
  · intro i _ _ _ current other agree
    refine bind_rel (frames.read_all i) fun e0 f0 same0 => ?_
    refine bind_rel (frames.read_all (i - 1)) fun e1 f1 same1 => ?_
    apply agree.write
    intro same
    rw [same0 same, same1 same]
  · intro stop _ _ past current other agree
    exact agree.extend (by omega)

theorem discriThreshold_rel (signals : AgreeBelow condition size size e f) (width : s.width = length)
    (otherWidth : t.width = length) (delay : Int) (frac : K) :
    Option.Rel (AgreeBelow False length length) (discriThreshold e s delay frac)
      (discriThreshold f t delay frac) := by
  rw [discriThreshold, discriThreshold, width, otherWidth, signals.width, signals.otherWidth]
  apply cimgForInX_rel (AgreeBelow False length)
  · exact ⟨width, otherWidth, False.elim⟩
  · intro i _ _ _ current other agree
    refine bind_rel (signals.read_all (i - delay)) fun early late _ => ?_
    refine bind_rel (signals.read_all i) fun now later _ => ?_
    exact agree.write False.elim
  · intro stop _ _ _ current other agree
    exact ⟨agree.width, agree.otherWidth, False.elim⟩

end Filter

structure ScratchWidths where
  trapezoid : Nat
  s : Nat
  imageDCF : Nat

def CDataProcessorTrapezoid.widths {K : Type*} (object : CDataProcessorTrapezoid K) (width : Nat) :
    ScratchWidths :=
  if object.imageAssigned then ⟨object.trapezoid.width, object.s.width, object.imageDCF.width⟩
  else ⟨width, width, width⟩

structure Scratched {K : Type*} (condition : Prop) (widths : ScratchWidths)
    (object other : CDataProcessorTrapezoid K) : Prop where
  assigned : object.imageAssigned = true
  otherAssigned : other.imageAssigned = true
  trapezoid : AgreeBelow condition widths.trapezoid widths.trapezoid object.trapezoid other.trapezoid
  s : AgreeBelow condition widths.s widths.s object.s other.s
  imageDCF : AgreeBelow False widths.imageDCF widths.imageDCF object.imageDCF other.imageDCF

section Discri

theorem scratch_trapezoid {K : Type*} (object : CDataProcessorTrapezoid K) (width : Nat)
    (memory : Nat → K) :
    (if object.imageAssigned then object.trapezoid else ⟨width, memory⟩).width =
      (object.widths width).trapezoid := by
  rw [CDataProcessorTrapezoid.widths]
  split <;> rfl

theorem scratch_s {K : Type*} (object : CDataProcessorTrapezoid K) (width : Nat)
    (memory : Nat → K) :
    (if object.imageAssigned then object.s else ⟨width, memory⟩).width =
      (object.widths width).s := by
  rw [CDataProcessorTrapezoid.widths]
  split <;> rfl

variable {K : Type*} [CommRing K] {condition : Prop} {size : Nat} {e f : CImg K}
  {object other : CDataProcessorTrapezoid K}

theorem scratch_imageDCF (object : CDataProcessorTrapezoid K) (width : Nat) :
    (if object.imageAssigned then object.imageDCF
      else ⟨(object.widths width).s, fun _ => 0⟩).width = (object.widths width).imageDCF := by
  cases flag : object.imageAssigned <;> simp [CDataProcessorTrapezoid.widths, flag]

theorem calculDiscri_rel (frames : AgreeBelow condition size size e f) {widths : ScratchWidths}
    (own : object.widths size = widths) (others : other.widths size = widths)
    (trapezoids : AgreeBelow condition widths.trapezoid widths.trapezoid object.trapezoid
      other.trapezoid)
    (memory memory' : Nat → K) (Tpeak : Int) (frac alp : K) :
    Option.Rel (Scratched condition widths) (calculDiscri memory object e Tpeak frac alp)
      (calculDiscri memory' other f Tpeak frac alp) := by
  rw [calculDiscri, calculDiscri, frames.width, frames.otherWidth]
  have width := scratch_s object size memory
  have otherWidth := scratch_s other size memory'
  rw [own] at width
  rw [others] at otherWidth
  refine bind_rel (discriSimple_rel frames width otherWidth alp) fun s t signals => ?_
  have widthDCF := scratch_imageDCF object size
  have otherDCF := scratch_imageDCF other size
  rw [own, ← signals.width] at widthDCF
  rw [others, ← signals.otherWidth] at otherDCF
  refine bind_rel (discriThreshold_rel signals widthDCF otherDCF _ frac) fun a b images => ?_
  exact .some ⟨rfl, rfl, trapezoids, signals, images⟩

end Discri

section Scratch

variable {condition : Prop} {size : Nat} {e f : CImg ℚ} {object other : CDataProcessorTrapezoid ℚ}

/-- What an iteration leaves in the members, whether or not the search for the
trigger that follows ends. -/
def CDataProcessorTrapezoid.scratch (memory : Nat → Nat → ℚ) (filter : CDataFilter ℚ)
    (object : CDataProcessorTrapezoid ℚ) (input : CImg ℚ) : Option (CDataProcessorTrapezoid ℚ) := do
  let trapezoid := if object.imageAssigned then object.trapezoid else ⟨input.width, memory 0⟩
  let trapezoid ←
    trapezoidalFilter input trapezoid filter.k filter.m filter.alpha filter.decalage
  calculDiscri (memory 1) { object with trapezoid } input filter.Tm filter.fraction filter.alpha

def CDataProcessorTrapezoid.energy (filter : CDataFilter ℚ) (object : CDataProcessorTrapezoid ℚ) :
    Option (Int × ℚ) := do
  let Ti ← calculTi object.s filter.threshold
  let E ← calculationEnergy object.trapezoid Ti filter.n filter.q
  some (Ti, E)

theorem kernelCPUTrapeze_scratch (memory : Nat → Nat → ℚ) (filter : CDataFilter ℚ)
    (object : CDataProcessorTrapezoid ℚ) (input out : CImg ℚ) :
    kernelCPUTrapeze memory filter object input out =
      (object.scratch memory filter input).bind fun object =>
        (object.energy filter).bind fun found =>
          (out.write 0 found.2).map fun out => (object, found.1, out) := by
  simp only [kernelCPUTrapeze, CDataProcessorTrapezoid.scratch, CDataProcessorTrapezoid.energy,
    Option.bind_eq_bind, Option.bind_assoc, Option.bind_some, Option.map_eq_bind, Function.comp_def]

theorem CDataProcessorTrapezoid.widths_with_trapezoid {trapezoid : CImg ℚ}
    (kept : trapezoid.width = (object.widths size).trapezoid) :
    widths { object with trapezoid } size = object.widths size := by
  cases flag : object.imageAssigned with
  | false => simp [widths, flag]
  | true => simpa [widths, flag] using kept

theorem CDataProcessorTrapezoid.scratch_rel (frames : AgreeBelow condition size size e f)
    (same : other.widths size = object.widths size) (memory memory' : Nat → Nat → ℚ)
    (filter : CDataFilter ℚ) :
    Option.Rel (Scratched condition (object.widths size)) (object.scratch memory filter e)
      (other.scratch memory' filter f) := by
  rw [scratch, scratch, frames.width, frames.otherWidth]
  have width := scratch_trapezoid object size (memory 0)
  have otherWidth := scratch_trapezoid other size (memory' 0)
  rw [same] at otherWidth
  refine bind_rel (trapezoidalFilter_rel frames width otherWidth _ _ _ _) fun a b trapezoids => ?_
  have own : widths { object with trapezoid := a } size = object.widths size :=
    widths_with_trapezoid trapezoids.width
  have others : widths { other with trapezoid := b } size = object.widths size := by
    have kept := trapezoids.otherWidth
    rw [← same] at kept ⊢
    exact widths_with_trapezoid kept
  exact calculDiscri_rel frames own others trapezoids _ _ _ _ _

theorem CDataProcessorTrapezoid.scratch_widths {memory : Nat → Nat → ℚ} {filter : CDataFilter ℚ}
    (ran : object.scratch memory filter e = some other) (width : Nat) :
    other.widths width = object.widths e.width := by
  have related : Option.Rel (Scratched True (object.widths e.width)) (object.scratch memory filter e)
      (object.scratch memory filter e) := scratch_rel (.refl rfl e.width) rfl memory memory filter
  rw [ran] at related
  cases related with
  | some kept =>
      rw [widths, if_pos kept.assigned, kept.trapezoid.width, kept.s.width, kept.imageDCF.width]

theorem CDataProcessorTrapezoid.scratch_again {memory : Nat → Nat → ℚ} {filter : CDataFilter ℚ}
    (ran : object.scratch memory filter e = some other) :
    ∃ later, other.scratch memory filter e = some later ∧
      Scratched True (object.widths e.width) other later := by
  have related : Option.Rel (Scratched True (object.widths e.width)) (object.scratch memory filter e)
      (other.scratch memory filter e) :=
    scratch_rel (.refl rfl e.width) (scratch_widths ran e.width) memory memory filter
  rw [ran] at related
  cases again : other.scratch memory filter e with
  | none =>
      rw [again] at related
      cases related
  | some later =>
      rw [again] at related
      cases related with
      | some same => exact ⟨later, rfl, same⟩

theorem CDataProcessorTrapezoid.energy_congr {widths : ScratchWidths}
    (same : Scratched True widths object other) (filter : CDataFilter ℚ) :
    object.energy filter = other.energy filter := by
  have signals : calculTi object.s filter.threshold = calculTi other.s filter.threshold := by
    apply calculTi_congr (same.s.width.trans same.s.otherWidth.symm)
    intro n inside
    rw [same.s.otherWidth] at inside
    exact same.s.data trivial n inside (by omega)
  have energies (Ti : Int) : calculationEnergy object.trapezoid Ti filter.n filter.q =
      calculationEnergy other.trapezoid Ti filter.n filter.q := by
    apply calculationEnergy_congr (same.trapezoid.width.trans same.trapezoid.otherWidth.symm)
    intro n inside
    rw [same.trapezoid.otherWidth] at inside
    exact same.trapezoid.data trivial n inside (by omega)
  simp only [energy, signals, energies]

end Scratch

section History

variable {filter : CDataFilter ℚ} {width : Nat} {past past' : List (CImg ℚ)} {input : CImg ℚ}
  {object other : CDataProcessorTrapezoid ℚ}

def history (memory : Nat → Nat → ℚ) (filter : CDataFilter ℚ) :
    List (CImg ℚ) → CDataProcessorTrapezoid ℚ → Option (CDataProcessorTrapezoid ℚ)
  | [], object => some object
  | frame :: past, object => (object.scratch memory filter frame).bind (history memory filter past)

def storedEnergy (memory : Nat → Nat → ℚ) (filter : CDataFilter ℚ) (past : List (CImg ℚ))
    (input out : CImg ℚ) : Option ℚ := do
  let object ← history memory filter past newProcessor
  let (_, _, out) ← kernelCPUTrapeze memory filter object input out
  out.read 0

theorem history_widths {memory : Nat → Nat → ℚ} (frames : ∀ frame ∈ past, frame.width = width)
    (start : object.widths width = ⟨width, width, width⟩)
    (ran : history memory filter past object = some other) :
    other.widths width = ⟨width, width, width⟩ := by
  induction past generalizing object with
  | nil =>
      cases ran
      exact start
  | cons frame past ih =>
      obtain ⟨next, taken, rest⟩ := Option.bind_eq_some_iff.mp ran
      have size := frames frame List.mem_cons_self
      refine ih (fun later member => frames later (List.mem_cons_of_mem _ member)) ?_ rest
      rw [CDataProcessorTrapezoid.scratch_widths taken, size, start]

theorem scratch_none_of_history {memory : Nat → Nat → ℚ}
    (frames : ∀ frame ∈ past, frame.width = width) (size : input.width = width)
    (start : object.widths width = ⟨width, width, width⟩)
    (same : other.widths width = ⟨width, width, width⟩)
    (stopped : history memory filter past object = none) (memory' : Nat → Nat → ℚ) :
    other.scratch memory' filter input = none := by
  induction past generalizing object with
  | nil => cases stopped
  | cons frame past ih =>
      have frameSize := frames frame List.mem_cons_self
      cases taken : object.scratch memory filter frame with
      | none =>
          have related : Option.Rel (Scratched False (object.widths width))
              (object.scratch memory filter frame) (other.scratch memory' filter input) :=
            CDataProcessorTrapezoid.scratch_rel ⟨frameSize, size, False.elim⟩
              (same.trans start.symm) memory memory' filter
          rw [taken] at related
          exact rel_none related
      | some next =>
          rw [history, taken, Option.bind_some] at stopped
          refine ih (fun later member => frames later (List.mem_cons_of_mem _ member)) ?_ stopped
          rw [CDataProcessorTrapezoid.scratch_widths taken, frameSize, start]

theorem newProcessor_widths (width : Nat) :
    newProcessor.widths width = ⟨width, width, width⟩ := rfl

theorem history_scratch_rel (frames : ∀ frame ∈ past, frame.width = width)
    (frames' : ∀ frame ∈ past', frame.width = width) (size : input.width = width)
    (memory memory' : Nat → Nat → ℚ) :
    Option.Rel (Scratched True ⟨width, width, width⟩)
      ((history memory filter past newProcessor).bind fun object =>
        object.scratch memory filter input)
      ((history memory' filter past' newProcessor).bind fun object =>
        object.scratch memory' filter input) := by
  have start := newProcessor_widths width
  cases ran : history memory filter past newProcessor with
  | none =>
      cases ran' : history memory' filter past' newProcessor with
      | none => exact .none
      | some other =>
          have others := history_widths frames' start ran'
          rw [Option.bind_some, scratch_none_of_history frames size start others ran memory']
          exact .none
  | some object =>
      have own := history_widths frames start ran
      cases ran' : history memory' filter past' newProcessor with
      | none =>
          rw [Option.bind_some, scratch_none_of_history frames' size start own ran' memory]
          exact .none
      | some other =>
          have others := history_widths frames' start ran'
          rw [← own]
          exact CDataProcessorTrapezoid.scratch_rel (.refl size width) (others.trans own.symm)
            memory memory' filter

theorem storedEnergy_eq (memory : Nat → Nat → ℚ) (past : List (CImg ℚ)) (input : CImg ℚ)
    {out : CImg ℚ} (room : 0 < out.width) :
    storedEnergy memory filter past input out =
      ((history memory filter past newProcessor).bind fun object =>
        object.scratch memory filter input).bind fun object =>
          (object.energy filter).map Prod.snd := by
  have written (E : ℚ) : out.write 0 E = some (out.set 0 E) := CImg.write_of_lt room E
  have stored (E : ℚ) : (out.set 0 E).read 0 = some ((out.set 0 E).data 0) := CImg.read_of_lt room
  simp only [storedEnergy, kernelCPUTrapeze_scratch, Option.bind_eq_bind, Option.bind_assoc, written,
    Option.bind_some, stored, CImg.set_data_self, Option.map_eq_bind, Function.comp_def]

theorem storedEnergy_congr (frames : ∀ frame ∈ past, frame.width = width)
    (frames' : ∀ frame ∈ past', frame.width = width) (size : input.width = width)
    (memory memory' : Nat → Nat → ℚ) {out out' : CImg ℚ} (room : 0 < out.width)
    (room' : 0 < out'.width) :
    storedEnergy memory filter past input out = storedEnergy memory' filter past' input out' := by
  rw [storedEnergy_eq memory past input room, storedEnergy_eq memory' past' input room']
  apply bind_eq_of_rel (history_scratch_rel frames frames' size memory memory')
  intro object other same
  rw [CDataProcessorTrapezoid.energy_congr same]

structure CDataFilter.Usable {K : Type*} (filter : CDataFilter K) : Prop where
  k : 0 ≤ filter.k
  m : 0 ≤ filter.m
  n : filter.n ≠ 0
  Tm : 0 ≤ filter.Tm

theorem scratch_runs (usable : filter.Usable) (positive : 0 < input.width)
    (start : object.widths input.width = ⟨input.width, input.width, input.width⟩)
    (memory : Nat → Nat → ℚ) :
    ∃ other, object.scratch memory filter input = some other ∧ other.s.width = input.width ∧
      ∀ n < input.width, other.s.data n = discriSignal filter.alpha input.data n := by
  obtain ⟨k, rise⟩ := Int.eq_ofNat_of_zero_le usable.k
  obtain ⟨m, flat⟩ := Int.eq_ofNat_of_zero_le usable.m
  have same := scratch_trapezoid object input.width (memory 0)
  rw [start] at same
  obtain ⟨trapezoid, filled, width, _⟩ := trapezoidalFilter_spec positive same k m filter.alpha
  have fits : object.Fits input.width := by
    intro assigned
    rw [CDataProcessorTrapezoid.widths, if_pos assigned, ScratchWidths.mk.injEq] at start
    exact ⟨start.2.1, start.2.2, start.1⟩
  have later := fits.with_trapezoid width
  obtain ⟨other, ran⟩ := calculDiscri_runs (memory 1) filter.fraction filter.alpha positive later
    usable.Tm
  obtain ⟨sameS, signal, _⟩ := calculDiscri_spec positive later ran
  refine ⟨other, ?_, sameS, signal⟩
  rw [← rise, ← flat, ← filter.setup] at filled
  rw [CDataProcessorTrapezoid.scratch, filled, Option.bind_eq_bind, Option.bind_some]
  exact ran

theorem history_runs (usable : filter.Usable) (positive : 0 < width)
    (frames : ∀ frame ∈ past, frame.width = width)
    (start : object.widths width = ⟨width, width, width⟩) (memory : Nat → Nat → ℚ) :
    ∃ other, history memory filter past object = some other := by
  induction past generalizing object with
  | nil => exact ⟨object, rfl⟩
  | cons frame past ih =>
      have size := frames frame List.mem_cons_self
      rw [← size] at positive start
      obtain ⟨next, taken, _⟩ := scratch_runs usable positive start memory
      rw [history, taken, Option.bind_some]
      apply ih fun later member => frames later (List.mem_cons_of_mem _ member)
      rw [CDataProcessorTrapezoid.scratch_widths taken, start, size]

theorem energy_runs (usable : filter.Usable)
    (reached : ∃ x < object.s.width, filter.threshold ≤ object.s.data x) :
    ∃ found, object.energy filter = some found := by
  obtain ⟨T, inside, low, high⟩ := exists_trigger reached
  obtain ⟨E, summed⟩ := calculationEnergy_runs object.trapezoid T filter.q usable.n
  rw [CDataProcessorTrapezoid.energy, calculTi_spec inside low high, Option.bind_eq_bind,
    Option.bind_some, summed]
  exact ⟨_, rfl⟩

theorem storedEnergy_runs (usable : filter.Usable) (positive : 0 < width)
    (frames : ∀ frame ∈ past, frame.width = width) (size : input.width = width)
    (reached : ∃ x < width, filter.threshold ≤ discriSignal filter.alpha input.data x)
    (memory : Nat → Nat → ℚ) {out : CImg ℚ} (room : 0 < out.width) :
    ∃ E, storedEnergy memory filter past input out = some E := by
  have start := newProcessor_widths width
  obtain ⟨object, ran⟩ := history_runs usable positive frames start memory
  have own := history_widths frames start ran
  rw [← size] at positive own reached
  obtain ⟨other, taken, sameS, signal⟩ := scratch_runs usable positive own memory
  obtain ⟨x, inside, high⟩ := reached
  rw [← signal x inside] at high
  rw [← sameS] at inside
  obtain ⟨found, energy⟩ := energy_runs usable ⟨x, inside, high⟩
  rw [storedEnergy_eq memory past input room, ran, Option.bind_some, taken, Option.bind_some, energy]
  exact ⟨_, rfl⟩

def earlier (share : Nat → Nat) (frames : Nat → CImg ℚ) (i : Nat) : List (CImg ℚ) :=
  ((List.range i).filter fun j => share j = share i).map frames

theorem earlier_width {share : Nat → Nat} {frames : Nat → CImg ℚ}
    (same : ∀ i, (frames i).width = width) {i : Nat} :
    ∀ frame ∈ earlier share frames i, frame.width = width := by
  intro frame member
  obtain ⟨j, _, rfl⟩ := List.mem_map.mp member
  exact same j

end History

end RockAMali
