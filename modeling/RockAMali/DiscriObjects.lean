import RockAMali.GpuDiscri
import RockAMali.Superposition
import RockAMali.TrapezoidObjects

/-!
`process.cpp --use-GPU` with processors of the class `CDataProcessorGPU_discri_opencl`,
which take the discri signal from the device and compute the trapezoid and the
energy themselves. They store what `CDataProcessor_trapezoid` does. `Tproc` is
`float` there; in `receive.cpp` it is `unsigned int`, which this does not model.
-/

namespace RockAMali

/-- `compute::copy` of an image to the beginning of another. -/
def computeCopy {α : Type*} (source destination : CImg α) : Option (CImg α) :=
  if source.width ≤ destination.width then
    some { destination with
      data := fun x => if x < source.width then source.data x else destination.data x }
  else none

structure DiscriDevice (vectorSize : Nat) (alpha : ℚ) where
  launch : Nat → (Nat → ℚ) → (Nat → ℚ) → Nat → ℚ
  launched : ∀ number input before,
    DiscriOpencl.kernelGPU vectorSize input alpha before (launch number input before)

structure DiscriMembers (vectorSize : Nat) (alpha : ℚ) where
  device : DiscriDevice vectorSize alpha
  memory : Nat → Nat → ℚ
  launches : Nat
  deviceVectorIn : Nat → ℚ
  deviceVectorOut : Nat → ℚ
  imageAssigned : Bool
  discri : CImg ℚ
  trapezoid : CImg ℚ
  image : CImg ℚ

def DiscriOpencl.kernelEnergy {vectorSize : Nat} (filter : CDataFilter ℚ)
    (members : DiscriMembers vectorSize filter.alpha) (input discri out : CImg ℚ) :
    Option (DiscriMembers vectorSize filter.alpha × CImg ℚ) := do
  let trapezoid :=
    if members.imageAssigned then members.trapezoid else ⟨input.width, members.memory 0⟩
  let trapezoid ←
    trapezoidalFilter input trapezoid filter.k filter.m filter.alpha filter.decalage
  let Ti ← calculTi discri filter.threshold
  let E ← calculationEnergy trapezoid Ti filter.n filter.q
  let out ← out.write 0 E
  some ({ members with imageAssigned := true, trapezoid }, out)

def DiscriOpencl.kernel {vectorSize : Nat} (filter : CDataFilter ℚ)
    (members : DiscriMembers vectorSize filter.alpha) (input out : CImg ℚ) :
    Option (DiscriMembers vectorSize filter.alpha × CImg ℚ) := do
  let discri := if members.imageAssigned then members.discri else ⟨input.width, members.memory 1⟩
  let deviceVectorIn ← computeCopy input ⟨vectorSize, members.deviceVectorIn⟩
  let deviceVectorOut :=
    members.device.launch members.launches deviceVectorIn.data members.deviceVectorOut
  let discri ← computeCopy ⟨vectorSize, deviceVectorOut⟩ discri
  let members := { members with
    launches := members.launches + 1
    deviceVectorIn := deviceVectorIn.data
    deviceVectorOut
    discri }
  DiscriOpencl.kernelEnergy filter members input discri out

def discriKernel {vectorSize : Nat} (filter : CDataFilter ℚ) :
    Option (DiscriMembers vectorSize filter.alpha) → CImg ℚ →
      Option (DiscriMembers vectorSize filter.alpha) × Option (CImg ℚ)
  | none, _ => (none, none)
  | some members, input =>
      match DiscriOpencl.kernel filter members input members.image with
      | none => (none, none)
      | some (members, image) => (some { members with image }, some image)

/-- A new object: the vectors of the device and the image hold what their memory did. -/
def newDiscri {vectorSize : Nat} {alpha : ℚ} (device : DiscriDevice vectorSize alpha)
    (memory : Nat → Nat → ℚ) : DiscriMembers vectorSize alpha where
  device := device
  memory := memory
  launches := 0
  deviceVectorIn := memory 2
  deviceVectorOut := memory 3
  imageAssigned := false
  discri := ⟨0, fun _ => 0⟩
  trapezoid := ⟨0, fun _ => 0⟩
  image := ⟨1, memory 4⟩

def DiscriDevice.sequential {vectorSize : Nat} (groups : 16 ∣ vectorSize) (alpha : ℚ) :
    DiscriDevice vectorSize alpha where
  launch _ input before :=
    WorkItems.perform before (WorkItems.launch vectorSize (DiscriOpencl.discri input alpha))
  launched _ _ _ := ⟨groups, _, List.Perm.refl _, rfl⟩

theorem computeCopy_eq {α : Type*} (source destination : CImg α)
    (fits : source.width = destination.width) :
    ∃ copied, computeCopy source destination = some copied ∧ copied.width = source.width ∧
      ∀ x < source.width, copied.data x = source.data x := by
  refine ⟨_, if_pos (Nat.le_of_eq fits), fits.symm, ?_⟩
  intro x inside
  exact if_pos inside

theorem discriSignal_congr {alpha : ℚ} {width : Nat} {e f : Nat → ℚ}
    (same : ∀ n < width, e n = f n) {n : Nat} (inside : n < width) :
    discriSignal alpha e n = discriSignal alpha f n := by
  rw [discriSignal, discriSignal, discri, discri, same n inside, same (n - 1) (by omega)]

section Kernel

variable {filter : CDataFilter ℚ} {width : Nat} {past : List (CImg ℚ)} {input : CImg ℚ}
  {members : DiscriMembers width filter.alpha}

theorem DiscriOpencl.kernelEnergy_eq (usable : filter.Usable)
    (triggers : Triggers filter width input) (members : DiscriMembers width filter.alpha)
    (kept : members.imageAssigned = true → members.trapezoid.width = width) {discri out : CImg ℚ}
    (size : discri.width = width)
    (signal : ∀ n < width, discri.data n = discriSignal filter.alpha input.data n)
    (room : 0 < out.width) (memory : Nat → Nat → ℚ) {other : CImg ℚ} (otherRoom : 0 < other.width) :
    ∃ trapezoid E, trapezoid.width = width ∧
      DiscriOpencl.kernelEnergy filter members input discri out =
        some ({ members with imageAssigned := true, trapezoid }, out.set 0 E) ∧
      storedEnergy memory filter [] input other = some E := by
  obtain ⟨x, inside, high⟩ := triggers.reached
  have sameWidth := triggers.size
  have positive : 0 < input.width := by omega
  obtain ⟨k, rise⟩ := Int.eq_ofNat_of_zero_le usable.k
  obtain ⟨m, flat⟩ := Int.eq_ofNat_of_zero_le usable.m
  obtain ⟨fresh, s, freshWidth, filtered, sameS, same, stored⟩ :=
    storedEnergy_signals usable rise flat positive (fun _ member => absurd member List.not_mem_nil)
      memory otherRoom
  obtain ⟨E, found⟩ := storedEnergy_runs usable (Nat.zero_lt_of_lt inside)
    (fun _ member => absurd member List.not_mem_nil) sameWidth ⟨x, inside, high⟩ memory otherRoom
  have scratch : (if members.imageAssigned then members.trapezoid
      else ⟨input.width, members.memory 0⟩).width = input.width :=
    scratch_width (fun assigned => (kept assigned).trans sameWidth.symm) rfl
  obtain ⟨trapezoid, computed, trapezoidWidth, samples⟩ :=
    trapezoidalFilter_spec positive scratch k m filter.alpha
  rw [← rise, ← flat, ← filter.setup] at computed
  have trigger : calculTi discri filter.threshold = calculTi s filter.threshold := by
    apply calculTi_congr (by omega)
    intro n bound
    rw [signal n (by omega), same n (by omega)]
  have energy (Ti : Int) : calculationEnergy trapezoid Ti filter.n filter.q =
      calculationEnergy fresh Ti filter.n filter.q := by
    apply calculationEnergy_congr (trapezoidWidth.trans freshWidth.symm)
    intro n bound
    exact samples.unique filtered (by omega)
  rw [found] at stored
  obtain ⟨Ti, triggered, summed⟩ := Option.bind_eq_some_iff.mp stored.symm
  refine ⟨trapezoid, E, trapezoidWidth.trans sameWidth, ?_, found⟩
  have written : out.write 0 E = some (out.set 0 E) := CImg.write_of_lt room E
  simp only [DiscriOpencl.kernelEnergy, computed, trigger, triggered, energy, summed, written,
    Option.bind_eq_bind, Option.bind_some]

structure DiscriMembers.Ready (members : DiscriMembers width filter.alpha) : Prop where
  discri : members.imageAssigned = true → members.discri.width = width
  trapezoid : members.imageAssigned = true → members.trapezoid.width = width
  room : members.image.width = 1

theorem DiscriMembers.Ready.runs (ready : members.Ready) (usable : filter.Usable)
    (triggers : Triggers filter width input) (memory : Nat → Nat → ℚ) (image : Nat → ℚ) :
    ∃ next written, DiscriOpencl.kernel filter members input members.image =
        some (next, written) ∧
      DiscriMembers.Ready { next with image := written } ∧
      written.read 0 = storedEnergy memory filter [] input ⟨1, image⟩ := by
  have one : 0 < (⟨1, image⟩ : CImg ℚ).width := Nat.one_pos
  have size := triggers.size
  obtain ⟨deviceIn, sent, _, copied⟩ :=
    computeCopy_eq input ⟨width, members.deviceVectorIn⟩ size
  let computed := members.device.launch members.launches deviceIn.data members.deviceVectorOut
  have launched : DiscriOpencl.kernelGPU width deviceIn.data filter.alpha members.deviceVectorOut
      computed :=
    members.device.launched members.launches deviceIn.data members.deviceVectorOut
  have kept : (if members.imageAssigned then members.discri
      else ⟨input.width, members.memory 1⟩).width = width :=
    scratch_width ready.discri size
  obtain ⟨signals, returned, sameWidth, values⟩ :=
    computeCopy_eq ⟨width, computed⟩ _ kept.symm
  have signal : ∀ n < width, signals.data n = discriSignal filter.alpha input.data n := by
    intro n inside
    rw [values n inside]
    show computed n = discriSignal filter.alpha input.data n
    rw [kernelGPU_value launched inside]
    exact discriSignal_congr (fun i bound => copied i (by omega)) inside
  have room : 0 < members.image.width := by
    rw [ready.room]
    exact Nat.one_pos
  let loaded : DiscriMembers width filter.alpha := { members with
    launches := members.launches + 1, deviceVectorIn := deviceIn.data, deviceVectorOut := computed,
    discri := signals }
  have whole : DiscriOpencl.kernel filter members input members.image =
      DiscriOpencl.kernelEnergy filter loaded input signals members.image := by
    simp only [DiscriOpencl.kernel, sent, returned, Option.bind_eq_bind, Option.bind_some, loaded,
      computed]
  obtain ⟨trapezoid, E, sameTrapezoid, ran, stored⟩ :=
    DiscriOpencl.kernelEnergy_eq usable triggers loaded ready.trapezoid sameWidth signal room
      memory one
  refine ⟨_, _, whole.trans ran, ⟨fun _ => sameWidth, fun _ => sameTrapezoid, ready.room⟩, ?_⟩
  rw [stored, (by simp : (0 : Int) = (0 : Nat)), CImg.read_of_lt (by simpa using room),
    CImg.set_data_self]

theorem left_discri (ready : members.Ready) (usable : filter.Usable)
    (triggers : ∀ frame ∈ past, Triggers filter width frame) :
    ∃ next : DiscriMembers width filter.alpha,
      left (discriKernel filter) (some members) past = some next ∧ next.Ready := by
  induction past generalizing members with
  | nil => exact ⟨members, rfl, ready⟩
  | cons frame past ih =>
      obtain ⟨next, written, ran, after, _⟩ :=
        ready.runs usable (triggers frame List.mem_cons_self) members.memory (members.memory 4)
      obtain ⟨last, lefts, lastReady⟩ :=
        ih after fun later member => triggers later (List.mem_cons_of_mem _ member)
      refine ⟨last, ?_, lastReady⟩
      rw [left, List.foldl_cons, discriKernel, ran]
      exact lefts

theorem newDiscri_ready (device : DiscriDevice width filter.alpha) (memory : Nat → Nat → ℚ) :
    (newDiscri device memory).Ready :=
  ⟨fun assigned => absurd assigned Bool.false_ne_true,
    fun assigned => absurd assigned Bool.false_ne_true, rfl⟩

theorem storedSample_discri (usable : filter.Usable) (triggers : Triggers filter width input)
    (pasts : ∀ frame ∈ past, Triggers filter width frame) (device : DiscriDevice width filter.alpha)
    (memory memory' : Nat → Nat → ℚ) (image : Nat → ℚ) :
    storedSample (objectKernel (discriKernel filter)
        (left (discriKernel filter) (some (newDiscri device memory)) past) input) =
      storedEnergy memory' filter [] input ⟨1, image⟩ := by
  obtain ⟨last, lefts, ready⟩ := left_discri (newDiscri_ready device memory) usable pasts
  obtain ⟨next, written, ran, _, stored⟩ := ready.runs usable triggers memory' image
  rw [lefts, objectKernel, discriKernel, ran, ← stored]
  rfl

end Kernel

section Programs

variable {filter : CDataFilter ℚ} {width nbuffer count stride : Nat} {frame : Nat → CImg ℚ}

theorem discri_objects_store (usable : filter.Usable)
    (triggers : ∀ i, Triggers filter width (frame i)) (positive : 0 < stride)
    (fits : stride ≤ nbuffer) (device : Nat → DiscriDevice width filter.alpha)
    (memory : Nat → Nat → Nat → ℚ) (memory' : Nat → Nat → ℚ) (image : Nat → ℚ) :
    ∃ energies : List ℚ,
      energies.map some = (List.range count).map (fun i =>
        storedEnergy memory' filter [] (frame i) ⟨1, image⟩) ∧
      ∀ objects, (process nbuffer count (stride + 2)).ObjectsReachable frame
          (discriKernel filter) (fun id => some (newDiscri (device id) (memory id))) objects →
        objects.state.data.storedR.map storedSample <+: energies.map some ∧
        ((process nbuffer count (stride + 2)).Finished objects.state →
          objects.state.data.storedR.map storedSample = energies.map some) := by
  obtain ⟨energies, found⟩ := exists_energies usable triggers memory' image count
  have same (share : Nat → Nat) (i : Nat) :
      storedSample (processed frame (discriKernel filter)
        (fun id => some (newDiscri (device id) (memory id))) share i) =
      storedEnergy memory' filter [] (frame i) ⟨1, image⟩ := by
    apply storedSample_discri usable (triggers i)
    intro input member
    obtain ⟨j, _, rfl⟩ := List.mem_map.mp member
    exact triggers j
  refine ⟨energies, found, ?_⟩
  intro objects reachable
  rw [found]
  exact process_values positive fits same reachable

end Programs

theorem discri_objects_store_small :
    ∃ energies : List ℚ,
      energies.map some = (List.range 5).map (fun _ =>
        storedEnergy (fun _ _ => 9) smallFilter [] ⟨16, smallFrame.data⟩ ⟨1, fun _ => 3⟩) ∧
      ∀ objects, (process 4 5 (2 + 2)).ObjectsReachable (fun _ => ⟨16, smallFrame.data⟩)
          (discriKernel smallFilter)
          (fun _ => some (newDiscri (.sequential (by decide : 16 ∣ 16) _) fun _ _ => 8)) objects →
        objects.state.data.storedR.map storedSample <+: energies.map some ∧
        ((process 4 5 (2 + 2)).Finished objects.state →
          objects.state.data.storedR.map storedSample = energies.map some) := by
  have triggers : Triggers smallFilter 16 ⟨16, smallFrame.data⟩ := by
    refine ⟨rfl, 4, by decide, ?_⟩
    norm_num [smallFilter, smallFrame, discriSignal, discri]
  exact discri_objects_store ⟨by decide, by decide, by decide, by decide⟩ (fun _ => triggers)
    (by decide) (by decide) (fun _ => .sequential (by decide) _) (fun _ _ _ => 8)
    (fun _ _ => 9) fun _ => 3

end RockAMali
