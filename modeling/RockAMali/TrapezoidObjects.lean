import RockAMali.ProcessorObjects
import RockAMali.TrapezoidHistory

/-!
`process.cpp` with processors of the class `CDataProcessor_trapezoid`, which keep
their scratch images from frame to frame, stores the energies that
`process_sequential.cpp` stores with one such processor.
-/

namespace RockAMali

/-! The members of the object; `memory` is what its scratch images hold when
they are assigned. -/

structure TrapezoidMembers where
  memory : Nat → Nat → ℚ
  object : CDataProcessorTrapezoid ℚ
  image : CImg ℚ

/-- The kernel as a step of the object: a kernel that leaves an image or does not
end is the last of its thread. -/
def trapezoidKernel (filter : CDataFilter ℚ) :
    Option TrapezoidMembers → CImg ℚ → Option TrapezoidMembers × Option (CImg ℚ)
  | none, _ => (none, none)
  | some members, input =>
      match kernelCPUTrapeze members.memory filter members.object input members.image with
      | none => (none, none)
      | some (object, _, image) => (some { members with object, image }, some image)

/-- A new object, whose image is assigned to one sample. -/
def newTrapezoid (memory : Nat → Nat → ℚ) (image : Nat → ℚ) : Option TrapezoidMembers :=
  some ⟨memory, newProcessor, ⟨1, image⟩⟩

def storedSample (image : Option (CImg ℚ)) : Option ℚ := image.bind fun image => image.read 0

section Kernel

variable {filter : CDataFilter ℚ} {width : Nat} {past : List (CImg ℚ)} {input : CImg ℚ}
  {members : TrapezoidMembers}

structure Triggers (filter : CDataFilter ℚ) (width : Nat) (input : CImg ℚ) : Prop where
  size : input.width = width
  reached : ∃ x < width, filter.threshold ≤ discriSignal filter.alpha input.data x

structure TrapezoidMembers.Ready (width : Nat) (members : TrapezoidMembers) : Prop where
  widths : members.object.widths width = ⟨width, width, width⟩
  room : members.image.width = 1

theorem TrapezoidMembers.Ready.runs (ready : members.Ready width) (usable : filter.Usable)
    (triggers : Triggers filter width input) :
    ∃ object Ti image, kernelCPUTrapeze members.memory filter members.object input members.image =
        some (object, Ti, image) ∧
      members.object.scratch members.memory filter input = some object ∧
      TrapezoidMembers.Ready width { members with object, image } := by
  obtain ⟨x, inside, high⟩ := triggers.reached
  have size := triggers.size
  subst size
  obtain ⟨object, ran, sameS, signal⟩ :=
    scratch_runs usable (Nat.zero_lt_of_lt inside) ready.widths members.memory
  rw [← signal x inside] at high
  rw [← sameS] at inside
  obtain ⟨found, energy⟩ := energy_runs usable ⟨x, inside, high⟩
  have room : 0 < members.image.width := by
    rw [ready.room]
    exact Nat.one_pos
  have written : members.image.write 0 found.2 = some (members.image.set 0 found.2) :=
    CImg.write_of_lt room found.2
  refine ⟨object, found.1, members.image.set 0 found.2, ?_, ran, ?_, ?_⟩
  · rw [kernelCPUTrapeze_scratch, ran, Option.bind_some, energy, Option.bind_some, written,
      Option.map_some]
  · exact (CDataProcessorTrapezoid.scratch_widths ran input.width).trans ready.widths
  · exact ready.room

theorem left_trapezoid (ready : members.Ready width) (usable : filter.Usable)
    (triggers : ∀ frame ∈ past, Triggers filter width frame) :
    ∃ object image, left (trapezoidKernel filter) (some members) past =
        some { members with object, image } ∧
      history members.memory filter past members.object = some object ∧
      TrapezoidMembers.Ready width { members with object, image } := by
  induction past generalizing members with
  | nil => exact ⟨members.object, members.image, rfl, rfl, ready⟩
  | cons frame past ih =>
      obtain ⟨object, Ti, image, ran, scratch, after⟩ :=
        ready.runs usable (triggers frame List.mem_cons_self)
      obtain ⟨last, lastImage, lefts, histories, lastReady⟩ :=
        ih after fun later member => triggers later (List.mem_cons_of_mem _ member)
      refine ⟨last, lastImage, ?_, ?_, lastReady⟩
      · rw [left, List.foldl_cons, trapezoidKernel, ran]
        exact lefts
      · rw [history, scratch, Option.bind_some]
        exact histories

theorem storedSample_trapezoid (usable : filter.Usable) (triggers : Triggers filter width input)
    (pasts : ∀ frame ∈ past, Triggers filter width frame) (memory memory' : Nat → Nat → ℚ)
    (image image' : Nat → ℚ) :
    storedSample (objectKernel (trapezoidKernel filter)
        (left (trapezoidKernel filter) (newTrapezoid memory image) past) input) =
      storedEnergy memory' filter [] input ⟨1, image'⟩ := by
  have ready : TrapezoidMembers.Ready width ⟨memory, newProcessor, ⟨1, image⟩⟩ :=
    ⟨newProcessor_widths width, rfl⟩
  obtain ⟨object, last, lefts, histories, after⟩ := left_trapezoid ready usable pasts
  obtain ⟨next, Ti, written, ran, _, _⟩ := after.runs usable triggers
  have room : 0 < last.width := by
    have one := after.room
    simp only at one
    rw [one]
    exact Nat.one_pos
  have stored : storedEnergy memory filter past input last = written.read 0 := by
    rw [storedEnergy, histories, Option.bind_eq_bind, Option.bind_some, ran]
    rfl
  have free : storedEnergy memory filter past input last =
      storedEnergy memory' filter [] input ⟨1, image'⟩ :=
    storedEnergy_congr (fun frame member => (pasts frame member).size)
      (fun _ member => absurd member List.not_mem_nil) triggers.size memory memory' room Nat.one_pos
  rw [newTrapezoid, lefts, objectKernel, trapezoidKernel, ran, ← free, stored]
  rfl

end Kernel

section Programs

variable {filter : CDataFilter ℚ} {width nbuffer count stride : Nat} {frame : Nat → CImg ℚ}

theorem processed_trapezoid (usable : filter.Usable)
    (triggers : ∀ i, Triggers filter width (frame i)) (memory : Nat → Nat → Nat → ℚ)
    (image : Nat → Nat → ℚ) (memory' : Nat → Nat → ℚ) (image' : Nat → ℚ) (share : Nat → Nat)
    (i : Nat) :
    storedSample (processed frame (trapezoidKernel filter)
        (fun id => newTrapezoid (memory id) (image id)) share i) =
      storedEnergy memory' filter [] (frame i) ⟨1, image'⟩ := by
  apply storedSample_trapezoid usable (triggers i)
  intro input member
  obtain ⟨j, _, rfl⟩ := List.mem_map.mp member
  exact triggers j

theorem exists_energies (usable : filter.Usable) (triggers : ∀ i, Triggers filter width (frame i))
    (memory : Nat → Nat → ℚ) (image : Nat → ℚ) (count : Nat) :
    ∃ energies : List ℚ, energies.map some = (List.range count).map fun i =>
      storedEnergy memory filter [] (frame i) ⟨1, image⟩ := by
  have each (i : Nat) : ∃ E, storedEnergy memory filter [] (frame i) ⟨1, image⟩ = some E := by
    obtain ⟨x, inside, high⟩ := (triggers i).reached
    exact storedEnergy_runs usable (Nat.zero_lt_of_lt inside)
      (fun _ member => absurd member List.not_mem_nil) (triggers i).size ⟨x, inside, high⟩
      memory Nat.one_pos
  choose energy found using each
  refine ⟨(List.range count).map energy, ?_⟩
  rw [List.map_map]
  exact List.map_congr_left fun i _ => (found i).symm

end Programs

theorem smallFrame_triggers : Triggers smallFilter 7 smallFrame := by
  refine ⟨rfl, 4, by decide, ?_⟩
  norm_num [smallFilter, smallFrame, discriSignal, discri]

end RockAMali
