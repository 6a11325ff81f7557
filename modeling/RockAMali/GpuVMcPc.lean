import RockAMali.GpuDiscri

/-!
`CDataProcessorGPU_opencl_T4` of `CDataProcessorGPUopencl.hpp` with its three
kernels, four samples a work item. Its vectors share whole blocks of four samples
with the frame, and not the samples after the last block.
-/

namespace RockAMali

namespace VMcPc

variable {K : Type*} [Field K]

def mul : K := 2.1

def cst : K := 123.45

def kernelCPU (in_ : CImg K) : CImg K := { in_ with data := fun x => in_.data x * mul + cst }

/-! The kernels, where `item` is the number of the work item. -/

def vMcPc4 (input : Nat → K) (item : Nat) : List (Nat × K) :=
  let gid := item * 4
  [(gid, input gid * mul + cst), (gid + 1, input (gid + 1) * mul + cst),
    (gid + 2, input (gid + 2) * mul + cst), (gid + 3, input (gid + 3) * mul + cst)]

structure Tproc4 (K : Type*) where
  x : K
  y : K
  z : K
  w : K

def Tproc4.fill (value : K) : Tproc4 K := ⟨value, value, value, value⟩

instance : Mul (Tproc4 K) :=
  ⟨fun left right => ⟨left.x * right.x, left.y * right.y, left.z * right.z, left.w * right.w⟩⟩

instance : Add (Tproc4 K) :=
  ⟨fun left right => ⟨left.x + right.x, left.y + right.y, left.z + right.z, left.w + right.w⟩⟩

def vMcPc4xyzw (input : Nat → K) (item : Nat) : List (Nat × K) :=
  let gid := item * 4
  let in_ : Tproc4 K := ⟨input gid, input (gid + 1), input (gid + 2), input (gid + 3)⟩
  let out := in_ * Tproc4.fill mul + Tproc4.fill cst
  [(gid, out.x), (gid + 1, out.y), (gid + 2, out.z), (gid + 3, out.w)]

def vMcPc4lsFma (input : Nat → K) (item : Nat) : List (Nat × K) :=
  vstore (fma (vload 4 item input) (splat mul) (splat cst)) item

/-- The samples of `in4` and `out4`, of which there are `VECTOR_SIZE/4` each. -/
def blocks (width : Nat) : Nat := 4 * (width / 4)

/-- `kernel(in,out)`, whose device vectors have any content before. -/
def Kernel (items : (Nat → K) → Nat → List (Nat × K)) (width : Nat) (in_ out result : CImg K) :
    Prop :=
  ∃ deviceIn deviceOut computed : Nat → K,
    Enqueued (width / 4) 16
      (items fun place => if place < blocks width then in_.data place else deviceIn place)
      deviceOut computed ∧
    result = { out with
      data := fun place => if place < blocks width then computed place else out.data place }

structure Fourfold (items : (Nat → K) → Nat → List (Nat × K)) : Prop where
  blocks : ∀ input, WorkItems.Blocks 4 (items input)
  value : ∀ input item, ∀ lane < 4,
    (4 * item + lane, input (4 * item + lane) * mul + cst) ∈ items input item

theorem vMcPc4_fourfold : Fourfold (vMcPc4 (K := K)) := by
  constructor
  · intro input item
    simp [vMcPc4, List.range_succ, Nat.mul_comm]
  · intro input item lane bound
    obtain rfl | rfl | rfl | rfl : lane = 0 ∨ lane = 1 ∨ lane = 2 ∨ lane = 3 := by omega
    all_goals simp [vMcPc4, Nat.mul_comm]

theorem vMcPc4xyzw_eq : vMcPc4xyzw (K := K) = vMcPc4 := rfl

theorem vMcPc4lsFma_fourfold : Fourfold (vMcPc4lsFma (K := K)) := by
  constructor
  · intro input
    exact vstore_blocks
  · intro input item lane bound
    exact List.mem_map.mpr ⟨⟨lane, bound⟩, List.mem_finRange _, rfl⟩

variable {items : (Nat → K) → Nat → List (Nat × K)} {width : Nat} {in_ out result : CImg K}

theorem Kernel.sample (fourfold : Fourfold items) (ran : Kernel items width in_ out result)
    (x : Nat) :
    result.data x = if x < blocks width then (kernelCPU in_).data x else out.data x := by
  obtain ⟨deviceIn, deviceOut, computed, launched, rfl⟩ := ran
  by_cases shared : x < blocks width
  · have group : x / 4 < width / 4 := by
      rw [blocks] at shared
      omega
    have stored := fourfold.value
      (fun place => if place < blocks width then in_.data place else deviceIn place) (x / 4)
      (x % 4) (by omega)
    rw [Nat.div_add_mod, if_pos shared] at stored
    have value := launched.2.value (fourfold.blocks _) group stored
    simp only [if_pos shared, value, kernelCPU]
  · simp only [if_neg shared]

theorem Kernel.correct_iff (fourfold : Fourfold items) (ran : Kernel items width in_ out result) :
    (∀ x < width, result.data x = (kernelCPU in_).data x) ↔
      ∀ x < width, blocks width ≤ x → out.data x = (kernelCPU in_).data x := by
  constructor
  · intro correct x inside rest
    have sample := correct x inside
    rwa [ran.sample fourfold, if_neg (by omega)] at sample
  · intro kept x inside
    rw [ran.sample fourfold]
    split
    · rfl
    · exact kept x inside (by omega)

theorem Kernel.exists (groups : 16 ∣ width / 4) (items : (Nat → K) → Nat → List (Nat × K))
    (in_ out : CImg K) : ∃ result, Kernel items width in_ out result := by
  obtain ⟨computed, launched⟩ := enqueued_exists groups
    (items fun place => if place < blocks width then in_.data place else 0) fun _ => 0
  exact ⟨_, fun _ => 0, fun _ => 0, computed, launched, rfl⟩

def Correct (items : (Nat → K) → Nat → List (Nat × K)) (width : Nat) : Prop :=
  ∀ in_ out result : CImg K, in_.width = width → out.width = width →
    Kernel items width in_ out result → ∀ x < width, result.data x = (kernelCPU in_).data x

theorem correct_iff (fourfold : Fourfold items) (groups : 16 ∣ width / 4) :
    Correct items width ↔ 4 ∣ width := by
  constructor
  · intro correct
    by_contra rest
    have inside : blocks width < width := by
      rw [blocks]
      omega
    -- a frame of zeros into one that no sample of the result is equal to
    let in_ : CImg K := ⟨width, fun _ => 0⟩
    let out : CImg K := ⟨width, fun x => (kernelCPU in_).data x + 1⟩
    obtain ⟨result, ran⟩ := Kernel.exists groups items in_ out
    have kept := (ran.correct_iff fourfold).mp (correct in_ out result rfl rfl ran) _ inside
      (Nat.le_refl _)
    exact one_ne_zero (left_eq_add.mp kept.symm)
  · intro whole in_ out result _ _ ran
    rw [ran.correct_iff fourfold]
    intro x inside rest
    rw [blocks] at rest
    omega

theorem fourfold_of_mem (member : items ∈ [vMcPc4 (K := K), vMcPc4xyzw, vMcPc4lsFma]) :
    Fourfold items := by
  simp only [List.mem_cons, List.not_mem_nil, or_false] at member
  obtain rfl | rfl | rfl := member
  · exact vMcPc4_fourfold
  · rw [vMcPc4xyzw_eq]
    exact vMcPc4_fourfold
  · exact vMcPc4lsFma_fourfold

theorem vMcPc_kernels_iff (width : Nat) (groups : 16 ∣ width / 4) :
    ∀ items ∈ [vMcPc4 (K := K), vMcPc4xyzw, vMcPc4lsFma],
      (Correct items width ↔ 4 ∣ width) ∧
      ∀ in_ out result : CImg K, Kernel items width in_ out result →
        ((∀ x < width, result.data x = (kernelCPU in_).data x) ↔
          ∀ x < width, blocks width ≤ x → out.data x = (kernelCPU in_).data x) := by
  intro items member
  refine ⟨correct_iff (fourfold_of_mem member) groups, ?_⟩
  intro in_ out result ran
  exact ran.correct_iff (fourfold_of_mem member)

theorem vMcPc_kernels_sixty_four :
    Correct (vMcPc4 (K := ℚ)) 64 ∧ Correct (vMcPc4xyzw (K := ℚ)) 64 ∧
      Correct (vMcPc4lsFma (K := ℚ)) 64 :=
  ⟨(vMcPc_kernels_iff 64 (by decide) _ (by simp)).1.mpr (by decide),
    (vMcPc_kernels_iff 64 (by decide) _ (by simp)).1.mpr (by decide),
    (vMcPc_kernels_iff 64 (by decide) _ (by simp)).1.mpr (by decide)⟩

theorem Kernel.exists_rest (member : items ∈ [vMcPc4 (K := K), vMcPc4xyzw, vMcPc4lsFma])
    (groups : 16 ∣ width / 4) (in_ out : CImg K) {x : Nat} (rest : blocks width ≤ x) :
    ∃ result, Kernel items width in_ out result ∧ result.data x = out.data x := by
  obtain ⟨result, ran⟩ := Kernel.exists groups items in_ out
  refine ⟨result, ran, ?_⟩
  rw [ran.sample (fourfold_of_mem member), if_neg (by omega)]

def silent : CImg ℚ := ⟨66, fun _ => 0⟩

theorem vMcPc_kernels_sixty_six :
    (∃ result, Kernel vMcPc4 66 silent silent result ∧ result.data 65 = 0) ∧
      (∃ result, Kernel vMcPc4xyzw 66 silent silent result ∧ result.data 65 = 0) ∧
      (∃ result, Kernel vMcPc4lsFma 66 silent silent result ∧ result.data 65 = 0) ∧
      (kernelCPU silent).data 65 = 123.45 := by
  refine ⟨?_, ?_, ?_, by simp [kernelCPU, silent, cst]⟩
  · exact Kernel.exists_rest (by simp) (by decide) silent silent (by decide)
  · exact Kernel.exists_rest (by simp) (by decide) silent silent (by decide)
  · exact Kernel.exists_rest (by simp) (by decide) silent silent (by decide)

end VMcPc

end RockAMali
