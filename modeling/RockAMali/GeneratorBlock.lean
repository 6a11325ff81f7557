import RockAMali.Library.MachineInt
import RockAMali.ThreadLock
import RockAMali.CImg

/-!
`CDataGenerator::iteration` and `CDataGenerator::iterationBlock` in one thread,
on a circular buffer whose slots no other thread takes meanwhile.
-/

namespace RockAMali

abbrev CImgList (T : Type) := CImg (CImg T)

namespace CImg

variable {α : Type*} {image : CImg α}

def fill (image : CImg α) (value : α) : CImg α :=
  { image with data := fun x => if x < image.width then value else image.data x }

theorem fill_eq_iff {value other : α} :
    image.fill value = image.fill other ↔ image.width = 0 ∨ value = other := by
  constructor
  · intro same
    by_cases empty : image.width = 0
    · exact Or.inl empty
    · have first := congrFun (congrArg CImg.data same) 0
      simp only [fill, if_pos (Nat.pos_of_ne_zero empty)] at first
      exact Or.inr first
  · rintro (empty | same)
    · simp [fill, empty]
    · rw [same]

def overwrite (image : CImg α) (n count : Nat) (values : Nat → α) : CImg α :=
  { image with data := fun x => if n ≤ x ∧ x < n + count then values x else image.data x }

@[simp] theorem overwrite_width (n count : Nat) (values : Nat → α) :
    (image.overwrite n count values).width = image.width := rfl

theorem overwrite_data_of_lt {n count x : Nat} (values : Nat → α) (lower : n ≤ x)
    (upper : x < n + count) : (image.overwrite n count values).data x = values x :=
  if_pos ⟨lower, upper⟩

theorem overwrite_data_of_not {n count x : Nat} (values : Nat → α)
    (outside : ¬(n ≤ x ∧ x < n + count)) :
    (image.overwrite n count values).data x = image.data x :=
  if_neg outside

@[simp] theorem overwrite_zero (n : Nat) (values : Nat → α) :
    image.overwrite n 0 values = image := by
  have none (x : Nat) : ¬(n ≤ x ∧ x < n + 0) := by omega
  simp only [overwrite, none, if_false]

theorem overwrite_succ {n count : Nat} {values : Nat → α} {value : α}
    (last : values (n + count) = value) :
    (image.overwrite n count values).set (n + count) value =
      image.overwrite n (count + 1) values := by
  simp only [overwrite, set, mk.injEq, true_and]
  funext x
  by_cases here : x = n + count
  · subst here
    rw [Function.update_self, if_pos (by omega), last]
  · rw [Function.update_of_ne here]
    have same : (n ≤ x ∧ x < n + count) ↔ (n ≤ x ∧ x < n + (count + 1)) := by omega
    simp only [same]

theorem overwrite_overwrite (n count : Nat) (values others : Nat → α) :
    (image.overwrite n count values).overwrite n count others = image.overwrite n count others := by
  simp only [overwrite, mk.injEq, true_and]
  funext x
  split <;> rfl

theorem overwrite_congr {n count : Nat} {values others : Nat → α} :
    image.overwrite n count values = image.overwrite n count others ↔
      ∀ j < count, values (n + j) = others (n + j) := by
  constructor
  · intro same j bound
    have lower : n ≤ n + j := Nat.le_add_right n j
    have upper : n + j < n + count := by omega
    rw [← overwrite_data_of_lt values lower upper, same, overwrite_data_of_lt others lower upper]
  · intro same
    simp only [overwrite, mk.injEq, true_and]
    funext x
    split
    · rename_i inside
      have value := same (x - n) (by omega)
      rwa [Nat.add_sub_cancel' inside.1] at value
    · rfl

end CImg

structure CDataGenerator (T : Type) where
  waitStatus : Taccess
  setStatus : Taccess
  blockSize : Nat
  convert : Int → T

structure Buffer (T : Type) where
  access : CImg Taccess
  images : CImgList T

namespace CDataGenerator

variable {T : Type} (generator : CDataGenerator T)

/-- `laccess.wait_for_status`, nothing if the slot is never free. -/
def waitSlot (n : Nat) (buffer : Buffer T) : Option (Buffer T) := do
  let what ← buffer.access.read n
  let held ← waitForStatus what generator.waitStatus stateFilling
  let access ← buffer.access.write n held
  some { buffer with access := access }

/-- `images[n].fill(value)` -/
def fillSlot (n : Nat) (value : Int) (buffer : Buffer T) : Option (Buffer T) := do
  let image ← buffer.images.read n
  let images ← buffer.images.write n (image.fill (generator.convert value))
  some { buffer with images := images }

def setSlot (n : Nat) (buffer : Buffer T) : Option (Buffer T) := do
  let what ← buffer.access.read n
  let status ← RockAMali.setStatus what stateFilling generator.setStatus
  let access ← buffer.access.write n status
  some { buffer with access := access }

def iteration (n : Nat) (i : Int) (buffer : Buffer T) : Option (Buffer T) := do
  let held ← generator.waitSlot n buffer
  let filled ← generator.fillSlot n i held
  generator.setSlot n filled

/-- Each loop has an `i` of its own, so that the parameter is not used. -/
def iterationBlock (n : Nat) (_i : Int) (buffer : Buffer T) : Option (Buffer T) := do
  let held ← Loop.times (fun i => generator.waitSlot (i + n)) generator.blockSize buffer
  let filled ← Loop.times (fun i => generator.fillSlot (i + n) i) generator.blockSize held
  Loop.times (fun i => generator.setSlot (i + n)) generator.blockSize filled

/-- `iteration(access,images,n+j,i+j)` for each slot of the block. -/
def iterations (n : Nat) (i : Int) (buffer : Buffer T) : Option (Buffer T) :=
  Loop.times (fun j => generator.iteration (n + j) (i + j)) generator.blockSize buffer

variable {generator} {buffer : Buffer T} {n count : Nat}

theorem waitSlot_eq {slot : Nat} (inside : slot < buffer.access.width)
    (free : buffer.access.data slot = generator.waitStatus) :
    generator.waitSlot slot buffer =
      some { buffer with access := buffer.access.set slot stateFilling } := by
  simp [waitSlot, CImg.read_of_lt inside, CImg.write_of_lt inside, free]

theorem fillSlot_eq {slot : Nat} (inside : slot < buffer.images.width) (value : Int) :
    generator.fillSlot slot value buffer = some { buffer with
      images := buffer.images.set slot
        ((buffer.images.data slot).fill (generator.convert value)) } := by
  simp [fillSlot, CImg.read_of_lt inside, CImg.write_of_lt inside]

theorem setSlot_eq {slot : Nat} (inside : slot < buffer.access.width)
    (filling : buffer.access.data slot = stateFilling) :
    generator.setSlot slot buffer =
      some { buffer with access := buffer.access.set slot generator.setStatus } := by
  simp [setSlot, CImg.read_of_lt inside, CImg.write_of_lt inside, filling]

theorem times_status {change : Nat → Buffer T → Option (Buffer T)} {old status : Taccess}
    (changed : ∀ (current : Buffer T) (slot : Nat), slot < current.access.width →
      current.access.data slot = old →
      change slot current = some { current with access := current.access.set slot status })
    (inside : n + count ≤ buffer.access.width)
    (holds : ∀ j < count, buffer.access.data (n + j) = old) :
    Loop.times (fun i => change (i + n)) count buffer =
      some { buffer with access := buffer.access.overwrite n count fun _ => status } := by
  induction count with
  | zero => simp [Loop.times]
  | succ count ih =>
      rw [Loop.times, ih (by omega) fun j bound => holds j (by omega), Option.bind_some, changed]
      · rw [Nat.add_comm count n, CImg.overwrite_succ rfl]
      · simp only [CImg.overwrite_width]
        omega
      · rw [CImg.overwrite_data_of_not _ (by omega), Nat.add_comm]
        exact holds count (by omega)

theorem times_fillSlot (inside : n + count ≤ buffer.images.width) :
    Loop.times (fun i => generator.fillSlot (i + n) i) count buffer = some { buffer with
      images := buffer.images.overwrite n count fun slot =>
        (buffer.images.data slot).fill (generator.convert (slot - n : Nat)) } := by
  induction count with
  | zero => simp [Loop.times]
  | succ count ih =>
      rw [Loop.times, ih (by omega), Option.bind_some, fillSlot_eq]
      · rw [CImg.overwrite_data_of_not _ (by omega), Nat.add_comm count n, CImg.overwrite_succ]
        rw [Nat.add_sub_cancel_left]
      · simp only [CImg.overwrite_width]
        omega

theorem iterationBlock_eq (i : Int) (access : n + generator.blockSize ≤ buffer.access.width)
    (images : n + generator.blockSize ≤ buffer.images.width)
    (free : ∀ j < generator.blockSize, buffer.access.data (n + j) = generator.waitStatus) :
    generator.iterationBlock n i buffer = some {
      access := buffer.access.overwrite n generator.blockSize fun _ => generator.setStatus
      images := buffer.images.overwrite n generator.blockSize fun slot =>
        (buffer.images.data slot).fill (generator.convert (slot - n : Nat)) } := by
  rw [iterationBlock, Option.bind_eq_bind, times_status (fun _ _ => waitSlot_eq) access free,
    Option.bind_some, times_fillSlot, Option.bind_some, times_status (fun _ _ => setSlot_eq),
    CImg.overwrite_overwrite]
  · exact access
  · exact fun j bound => CImg.overwrite_data_of_lt _ (Nat.le_add_right n j) (by omega)
  · exact images

theorem iteration_eq {slot : Nat} (i : Int) (access : slot < buffer.access.width)
    (images : slot < buffer.images.width)
    (free : buffer.access.data slot = generator.waitStatus) :
    generator.iteration slot i buffer = some {
      access := buffer.access.set slot generator.setStatus
      images := buffer.images.set slot
        ((buffer.images.data slot).fill (generator.convert i)) } := by
  rw [iteration, Option.bind_eq_bind, waitSlot_eq access free, Option.bind_some,
    fillSlot_eq, Option.bind_some, setSlot_eq]
  · simp only [CImg.set, Function.update_idem]
  · exact access
  · exact CImg.set_data_self stateFilling
  · exact images

theorem times_iteration (i : Int) (access : n + count ≤ buffer.access.width)
    (images : n + count ≤ buffer.images.width)
    (free : ∀ j < count, buffer.access.data (n + j) = generator.waitStatus) :
    Loop.times (fun j => generator.iteration (n + j) (i + j)) count buffer = some {
      access := buffer.access.overwrite n count fun _ => generator.setStatus
      images := buffer.images.overwrite n count fun slot =>
        (buffer.images.data slot).fill (generator.convert (i + (slot - n : Nat))) } := by
  induction count with
  | zero => simp [Loop.times]
  | succ count ih =>
      have past : ¬(n ≤ n + count ∧ n + count < n + count) := by omega
      rw [Loop.times, ih (by omega) (by omega) fun j bound => free j (by omega), Option.bind_some,
        iteration_eq]
      · rw [CImg.overwrite_data_of_not _ past, CImg.overwrite_succ rfl, CImg.overwrite_succ]
        rw [Nat.add_sub_cancel_left]
      · simp only [CImg.overwrite_width]
        omega
      · simp only [CImg.overwrite_width]
        omega
      · rw [CImg.overwrite_data_of_not _ past]
        exact free count (by omega)

section Block

variable (generator : CDataGenerator T) (buffer : Buffer T) (n : Nat) (i : Int)

structure Generated (last : Buffer T) : Prop where
  filled : ∀ j < generator.blockSize, last.images.data (n + j) =
    (buffer.images.data (n + j)).fill (generator.convert (i + j))
  marked : ∀ j < generator.blockSize, last.access.data (n + j) = generator.setStatus
  others : ∀ slot, ¬(n ≤ slot ∧ slot < n + generator.blockSize) →
    last.images.data slot = buffer.images.data slot ∧
      last.access.data slot = buffer.access.data slot

structure SlotBySlot : Prop where
  same : generator.iterationBlock n i buffer = generator.iterations n i buffer
  generated : ∃ last, generator.iterationBlock n i buffer = some last ∧
    generator.Generated buffer n i last

def SameValues : Prop :=
  ∀ j < generator.blockSize, (buffer.images.data (n + j)).width = 0 ∨
    generator.convert j = generator.convert (i + j)

end Block

theorem generated_iterations {i : Int} {last : Buffer T}
    (access : n + generator.blockSize ≤ buffer.access.width)
    (images : n + generator.blockSize ≤ buffer.images.width)
    (free : ∀ j < generator.blockSize, buffer.access.data (n + j) = generator.waitStatus)
    (ran : generator.iterations n i buffer = some last) :
    generator.Generated buffer n i last := by
  rw [iterations, times_iteration i access images free] at ran
  cases ran
  constructor
  · intro j bound
    rw [CImg.overwrite_data_of_lt _ (Nat.le_add_right n j) (by omega), Nat.add_sub_cancel_left]
  · intro j bound
    exact CImg.overwrite_data_of_lt _ (Nat.le_add_right n j) (by omega)
  · intro slot outside
    exact ⟨CImg.overwrite_data_of_not _ outside, CImg.overwrite_data_of_not _ outside⟩

theorem iterationBlock_iff (i : Int) (access : n + generator.blockSize ≤ buffer.access.width)
    (images : n + generator.blockSize ≤ buffer.images.width)
    (free : ∀ j < generator.blockSize, buffer.access.data (n + j) = generator.waitStatus) :
    generator.SlotBySlot buffer n i ↔ generator.SameValues buffer n i := by
  have values : generator.iterationBlock n i buffer = generator.iterations n i buffer ↔
      generator.SameValues buffer n i := by
    rw [iterationBlock_eq i access images free, iterations, times_iteration i access images free]
    simp only [Option.some.injEq, Buffer.mk.injEq, true_and, CImg.overwrite_congr,
      Nat.add_sub_cancel_left, CImg.fill_eq_iff]
    rfl
  constructor
  · exact fun block => values.mp block.same
  · intro same
    have equal := values.mpr same
    refine ⟨equal, _, iterationBlock_eq i access images free, ?_⟩
    rw [iterationBlock_eq i access images free] at equal
    exact generated_iterations access images free equal.symm

theorem sameValues_uint {generator : CDataGenerator UInt32} {buffer : Buffer UInt32} {n : Nat}
    {i : Int} (converts : generator.convert = UInt32.ofInt) (block : 0 < generator.blockSize)
    (sized : 0 < (buffer.images.data n).width) (nonneg : 0 ≤ i) (small : i < 2 ^ 32) :
    generator.SameValues buffer n i ↔ i = 0 := by
  constructor
  · intro same
    rcases same 0 block with empty | value
    · rw [Nat.add_zero] at empty
      omega
    · rw [converts, Nat.cast_zero, add_zero] at value
      have number := congrArg UInt32.toNat value
      rw [MachineInt.toNat_ofInt, MachineInt.toNat_ofInt] at number
      omega
  · rintro rfl j bound
    right
    rw [zero_add]

def pair : Buffer UInt32 := ⟨⟨4, fun _ => statusFree⟩, ⟨4, fun _ => ⟨3, fun _ => 0⟩⟩⟩

def pairGenerator : CDataGenerator UInt32 := ⟨statusFree, statusFilled, 2, UInt32.ofInt⟩

theorem iterationBlock_first : pairGenerator.SlotBySlot pair 1 0 :=
  (iterationBlock_iff 0 (by decide) (by decide) fun _ _ => rfl).mpr
    ((sameValues_uint rfl (by decide) (by decide) (by decide) (by decide)).mpr rfl)

theorem iterationBlock_second : ¬pairGenerator.SlotBySlot pair 1 2 := by
  rintro ⟨_, last, ran, generated⟩
  have first := congrArg (fun image => image.data 0) (generated.filled 0 (by decide))
  cases ran
  exact absurd first (by decide)

end CDataGenerator

end RockAMali
