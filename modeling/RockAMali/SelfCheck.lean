import RockAMali.GpuVMcPc
import RockAMali.PeakAnalysis
import RockAMali.TrapezoidHistory

/-!
The check that a CPU processor makes of its own results, in an iteration with
`do_check` on: `check_data` computes a frame again, into an image of the size of
the frame, and compares the result with the image of the processor.
-/

namespace RockAMali

namespace CImg

/-- `CImg<Tproc> imgt(img)` -/
def toTproc (image : CImg UInt32) : CImg ℚ := ⟨image.width, fun x => (image.data x).toNat⟩

@[simp] theorem toTproc_width (image : CImg UInt32) : image.toTproc.width = image.width := rfl

/-- `operator==` -/
def equals (image other : CImg ℚ) : Bool :=
  image.width = other.width && (List.range image.width).all fun x => image.data x = other.data x

theorem equals_refl (image : CImg ℚ) : image.equals image = true := by
  simp [equals]

theorem equals_single {image other : CImg ℚ} (single : image.width = 1)
    (same : image.data 0 = other.data 0) : image.equals other = true ↔ other.width = 1 := by
  simp [equals, single, same, eq_comm]

end CImg

def kernelCPUvPvMv (in_ : CImg UInt32) : Option (CImg ℚ) :=
  Loop.upTo 0 (in_.width - 1) (fun x out => do
    let sample ← in_.read x
    out.write x ((← out.read x) + (sample * sample).toNat)) in_.toTproc

/-- What the factory builds, with the members that each of them keeps. -/
inductive Processor where
  | vPvMv
  | kernel
  | pac (members : CDataProcessorMaxMin)
  | filter (data : CDataFilter ℚ) (scratch : CDataProcessorTrapezoid ℚ)

namespace Processor

def energy : Processor → Bool
  | .vPvMv | .kernel => false
  | .pac _ | .filter _ _ => true

def kernelCPU (convert : ℚ → Int32) (memory : Nat → Nat → ℚ) (in_ : CImg UInt32) (out : CImg ℚ) :
    Processor → Option (Processor × CImg ℚ)
  | .vPvMv => do some (.vPvMv, ← kernelCPUvPvMv in_)
  | .kernel => some (.kernel, VMcPc.kernelCPU in_.toTproc)
  | .pac members => do
      let members ← members.process32 convert in_
      some (.pac members, ← out.write 0 (members.A : ℚ))
  | .filter data scratch => do
      let (scratch, _, out) ← kernelCPUTrapeze memory data scratch in_.toTproc out
      some (.filter data scratch, out)

end Processor

structure CDataProcessor where
  processor : Processor
  image : CImg ℚ
  checkError : Nat

inductive FactoryType where
  | vPvMv
  | kernel
  | pac
  | filter

/-- The constructors, where `members` and `content` are not initialised. -/
def newDataProcessorCPU (members : CDataProcessorMaxMin) (data : CDataFilter ℚ)
    (content : Nat → ℚ) : FactoryType → CDataProcessor
  | .vPvMv => ⟨.vPvMv, ⟨0, content⟩, 0⟩
  | .kernel => ⟨.kernel, ⟨0, content⟩, 0⟩
  | .pac => ⟨.pac members, ⟨1, content⟩, 0⟩
  | .filter => ⟨.filter data newProcessor, ⟨1, content⟩, 0⟩

namespace Processor

variable {convert : ℚ → Int32} {memory : Nat → Nat → ℚ} {in_ : CImg UInt32} {out image : CImg ℚ}
  {processor next : Processor}

theorem kernelCPU_again (plain : processor.energy = false)
    (computed : processor.kernelCPU convert memory in_ out = some (next, image)) (other : CImg ℚ) :
    next = processor ∧ next.kernelCPU convert memory in_ other = some (next, image) := by
  cases processor with
  | vPvMv =>
      obtain ⟨result, ran, same⟩ := Option.bind_eq_some_iff.mp computed
      cases same
      exact ⟨rfl, computed⟩
  | kernel =>
      cases computed
      exact ⟨rfl, rfl⟩
  | pac members => cases plain
  | filter data scratch => cases plain

theorem kernelCPU_energy (energetic : processor.energy = true)
    (computed : processor.kernelCPU convert memory in_ out = some (next, image)) :
    next.energy = true ∧ ∃ E, image = out.set 0 E ∧ ∀ other : CImg ℚ, 0 < other.width →
      ∃ later, next.kernelCPU convert memory in_ other = some (later, other.set 0 E) := by
  cases processor with
  | vPvMv => cases energetic
  | kernel => cases energetic
  | pac members =>
      obtain ⟨found, ran, computed⟩ := Option.bind_eq_some_iff.mp computed
      obtain ⟨written, wrote, computed⟩ := Option.bind_eq_some_iff.mp computed
      cases computed
      obtain ⟨_, rfl⟩ := CImg.write_eq_some.mp wrote
      refine ⟨rfl, (found.A : ℚ), rfl, ?_⟩
      intro other room
      have again : other.write 0 (found.A : ℚ) = some (other.set 0 found.A) :=
        CImg.write_of_lt room _
      refine ⟨.pac found, ?_⟩
      rw [kernelCPU, CDataProcessorMaxMin.process32_again ran, Option.bind_eq_bind,
        Option.bind_some, again]
      rfl
  | filter data scratch =>
      obtain ⟨⟨kept, Ti, written⟩, ran, computed⟩ := Option.bind_eq_some_iff.mp computed
      cases computed
      rw [kernelCPUTrapeze_scratch] at ran
      obtain ⟨kept', scratched, ran⟩ := Option.bind_eq_some_iff.mp ran
      obtain ⟨⟨Ti', E⟩, found, ran⟩ := Option.bind_eq_some_iff.mp ran
      obtain ⟨written', wrote, ran⟩ := Option.map_eq_some_iff.mp ran
      cases ran
      obtain ⟨_, rfl⟩ := CImg.write_eq_some.mp wrote
      refine ⟨rfl, E, rfl, ?_⟩
      intro other room
      have wroteAgain : other.write 0 E = some (other.set 0 E) := CImg.write_of_lt room _
      obtain ⟨later, scratchedAgain, same⟩ := CDataProcessorTrapezoid.scratch_again scratched
      refine ⟨.filter data later, ?_⟩
      rw [CDataProcessorTrapezoid.energy_congr same] at found
      rw [kernelCPU, kernelCPUTrapeze_scratch, scratchedAgain, Option.bind_some, found,
        Option.bind_some, wroteAgain]
      rfl

end Processor

namespace CDataProcessor

def kernel (convert : ℚ → Int32) (memory : Nat → Nat → ℚ) (in_ : CImg UInt32)
    (object : CDataProcessor) : Option CDataProcessor := do
  let (processor, image) ← object.processor.kernelCPU convert memory in_ object.image
  some { object with processor, image }

def checkData (convert : ℚ → Int32) (memory : Nat → Nat → ℚ) (img : CImg UInt32)
    (object : CDataProcessor) : Option (Bool × CDataProcessor) := do
  let imgt := img.toTproc
  let (processor, imgt) ← object.processor.kernelCPU convert memory img imgt
  some (object.image.equals imgt, { object with processor })

def iteration (convert : ℚ → Int32) (memory : Nat → Nat → ℚ) (object : CDataProcessor)
    (frame : CImg UInt32 × UInt32) : Option CDataProcessor := do
  let (frame, i) := frame
  let object ← object.kernel convert memory frame
  -- check input
  let sample ← frame.read 0
  let object := if sample = i then object
    else { object with checkError := object.checkError + 1 }
  -- check output
  let (passed, object) ← object.checkData convert memory frame
  some (if passed then object else { object with checkError := object.checkError + 1 })

def run (convert : ℚ → Int32) (memory : Nat → Nat → ℚ) (object : CDataProcessor)
    (frames : List (CImg UInt32 × UInt32)) : Option CDataProcessor :=
  frames.foldlM (iteration convert memory) object

section Check

variable {convert : ℚ → Int32} {memory : Nat → Nat → ℚ} {frame : CImg UInt32}
  {start object after : CDataProcessor}

structure Kept (energetic : Bool) (object : CDataProcessor) : Prop where
  energy : object.processor.energy = energetic
  single : energetic = true → object.image.width = 1

theorem Kept.kernel {energetic : Bool} (kept : Kept energetic object)
    (computed : object.kernel convert memory frame = some after) : Kept energetic after := by
  obtain ⟨⟨next, image⟩, ran, same⟩ := Option.bind_eq_some_iff.mp computed
  cases same
  obtain ⟨energy, single⟩ := kept
  cases energetic with
  | false =>
      obtain ⟨rfl, _⟩ := Processor.kernelCPU_again energy ran image
      exact ⟨energy, Bool.noConfusion⟩
  | true =>
      obtain ⟨energetic, E, rfl, _⟩ := Processor.kernelCPU_energy energy ran
      exact ⟨energetic, single⟩

theorem Kept.checkData {energetic passed : Bool} (kept : Kept energetic object)
    (checked : object.checkData convert memory frame = some (passed, after)) :
    Kept energetic after := by
  obtain ⟨⟨next, imgt⟩, ran, same⟩ := Option.bind_eq_some_iff.mp checked
  cases same
  obtain ⟨energy, single⟩ := kept
  cases energetic with
  | false =>
      obtain ⟨rfl, _⟩ := Processor.kernelCPU_again energy ran imgt
      exact ⟨energy, Bool.noConfusion⟩
  | true =>
      obtain ⟨energetic, _⟩ := Processor.kernelCPU_energy energy ran
      exact ⟨energetic, single⟩

theorem Kept.iteration {energetic : Bool} {numbered : CImg UInt32 × UInt32}
    (kept : Kept energetic object)
    (ran : object.iteration convert memory numbered = some after) : Kept energetic after := by
  obtain ⟨computed, first, ran⟩ := Option.bind_eq_some_iff.mp ran
  obtain ⟨sample, _, ran⟩ := Option.bind_eq_some_iff.mp ran
  obtain ⟨⟨passed, checked⟩, second, ran⟩ := Option.bind_eq_some_iff.mp ran
  have between : Kept energetic (if sample = numbered.2 then computed
      else { computed with checkError := computed.checkError + 1 }) := by
    obtain ⟨energy, single⟩ := kept.kernel first
    split
    · exact ⟨energy, single⟩
    · exact ⟨energy, single⟩
  obtain ⟨energy, single⟩ := between.checkData second
  cases ran
  cases passed with
  | false => exact ⟨energy, single⟩
  | true => exact ⟨energy, single⟩

theorem Kept.run {energetic : Bool} {past : List (CImg UInt32 × UInt32)}
    (kept : Kept energetic start) (ran : start.run convert memory past = some object) :
    Kept energetic object := by
  induction past generalizing start with
  | nil =>
      cases ran
      exact kept
  | cons frame past ih =>
      obtain ⟨next, taken, rest⟩ := Option.bind_eq_some_iff.mp ran
      exact ih (kept.iteration taken) rest

theorem Kept.checks {energetic : Bool} (kept : Kept energetic object) (wide : 0 < frame.width)
    (computed : object.kernel convert memory frame = some after) :
    ∃ passed checked, after.checkData convert memory frame = some (passed, checked) ∧
      (passed = true ↔ energetic = false ∨ frame.width = 1) := by
  obtain ⟨energy, single⟩ := kept
  obtain ⟨⟨next, image⟩, ran, same⟩ := Option.bind_eq_some_iff.mp computed
  cases same
  cases energetic with
  | false =>
      obtain ⟨rfl, again⟩ := Processor.kernelCPU_again energy ran frame.toTproc
      refine ⟨image.equals image, ⟨object.processor, image, object.checkError⟩, ?_, ?_⟩
      · rw [CDataProcessor.checkData, again]
        rfl
      · simp [CImg.equals_refl]
  | true =>
      obtain ⟨_, E, rfl, again⟩ := Processor.kernelCPU_energy energy ran
      obtain ⟨later, again⟩ := again frame.toTproc wide
      refine ⟨(object.image.set 0 E).equals (frame.toTproc.set 0 E),
        ⟨later, object.image.set 0 E, object.checkError⟩, ?_, ?_⟩
      · rw [CDataProcessor.checkData, again]
        rfl
      · have one : (object.image.set 0 E).width = 1 := single rfl
        rw [CImg.equals_single one (by simp)]
        simp

end Check

theorem newDataProcessorCPU_kept (members : CDataProcessorMaxMin) (data : CDataFilter ℚ)
    (content : Nat → ℚ) (name : FactoryType) :
    Kept (newDataProcessorCPU members data content name).processor.energy
      (newDataProcessorCPU members data content name) := by
  refine ⟨rfl, ?_⟩
  cases name with
  | vPvMv | kernel => exact Bool.noConfusion
  | pac | filter => exact fun _ => rfl

/-- After any frames, the check of a frame passes for the processors that have an
image of its size: those about energy have one sample, whatever the frame. -/
theorem checkData_iff {convert : ℚ → Int32} {memory : Nat → Nat → ℚ}
    (members : CDataProcessorMaxMin) (data : CDataFilter ℚ) (content : Nat → ℚ) (name : FactoryType)
    (past : List (CImg UInt32 × UInt32)) {frame : CImg UInt32} {object after : CDataProcessor}
    (ran : (newDataProcessorCPU members data content name).run convert memory past = some object)
    (wide : 0 < frame.width) (computed : object.kernel convert memory frame = some after) :
    ∃ passed checked, after.checkData convert memory frame = some (passed, checked) ∧
      (passed = true ↔ name = .vPvMv ∨ name = .kernel ∨ frame.width = 1) := by
  obtain ⟨passed, checked, ends, passes⟩ :=
    ((newDataProcessorCPU_kept members data content name).run ran).checks wide computed
  refine ⟨passed, checked, ends, passes.trans ?_⟩
  cases name <;> simp [newDataProcessorCPU, Processor.energy]

theorem checkData_kernel :
    ∃ passed checked, CDataProcessor.checkData CDataProcessorMaxMin.truncate (fun _ _ => 0)
        ⟨3, fun n => if n = 1 then 9 else 0⟩ ⟨.kernel, VMcPc.kernelCPU
          (CImg.toTproc ⟨3, fun n => if n = 1 then 9 else 0⟩), 0⟩ = some (passed, checked) ∧
      (passed = true ↔ FactoryType.kernel = .vPvMv ∨ FactoryType.kernel = .kernel ∨ 3 = 1) :=
  checkData_iff ⟨0, 0, 0, 0, 0, 0⟩ smallFilter (fun _ => 0) .kernel [] rfl (by decide) rfl

theorem checkData_false_alarm :
    ∃ after checked,
      (newDataProcessorCPU ⟨0, 0, 0, 0, 0, 0⟩ smallFilter (fun _ => 0) .pac).kernel
        CDataProcessorMaxMin.truncate (fun _ _ => 0) ⟨3, fun n => if n = 1 then 9 else 0⟩ =
          some after ∧
      after.checkData CDataProcessorMaxMin.truncate (fun _ _ => 0)
        ⟨3, fun n => if n = 1 then 9 else 0⟩ = some (false, checked) := by
  have runs : ((newDataProcessorCPU ⟨0, 0, 0, 0, 0, 0⟩ smallFilter (fun _ => 0) .pac).kernel
      CDataProcessorMaxMin.truncate (fun _ _ => 0)
      ⟨3, fun n => if n = 1 then 9 else 0⟩).isSome = true := by
    decide +kernel
  obtain ⟨after, computed⟩ := Option.isSome_iff_exists.mp runs
  obtain ⟨passed, checked, ends, passes⟩ :=
    (newDataProcessorCPU_kept ⟨0, 0, 0, 0, 0, 0⟩ smallFilter (fun _ => 0) .pac).checks
      (by decide) computed
  have alarm : passed = false := by
    simpa [newDataProcessorCPU, Processor.energy] using passes
  exact ⟨after, checked, computed, alarm ▸ ends⟩

end CDataProcessor

end RockAMali
