import Mathlib.Tactic.LinearCombination
import RockAMali.Library.WorkItems
import RockAMali.TrapezoidProcessor

/-!
The OpenCL kernels of `CDataProcessorGPU_energy.hpp` that compute the discri
signal of a whole frame, one, two or four samples a work item.
-/

namespace RockAMali

section Vectors

variable {α : Type*} {lanes : Nat}

def vload (lanes gid : Nat) (input : Nat → α) : Fin lanes → α :=
  fun lane => input (lanes * gid + lane)

def vstore (vector : Fin lanes → α) (gid : Nat) : List (Nat × α) :=
  (List.finRange lanes).map fun lane => (lanes * gid + lane.val, vector lane)

/-- A scalar that initializes a vector goes to every lane. -/
def splat (value : α) : Fin lanes → α := fun _ => value

/-- The value of `(left, right)`: a list in brackets is a vector only after a
cast such as `(float4)`. -/
def comma (_left right : α) : α := right

theorem vstore_blocks {vectors : Nat → Fin lanes → α} :
    WorkItems.Blocks lanes fun gid => vstore (vectors gid) gid := by
  intro gid
  simp only [vstore, List.map_map, ← List.map_coe_finRange_eq_range]
  rfl

/-- `enqueue_1d_range_kernel` takes whole groups of `tpb` work items only. -/
def Enqueued (workSize tpb : Nat) (kernel : Nat → List (Nat × α)) (before after : Nat → α) :
    Prop :=
  tpb ∣ workSize ∧ WorkItems.Outcome workSize kernel before after

theorem enqueued_exists {workSize tpb : Nat} (groups : tpb ∣ workSize)
    (kernel : Nat → List (Nat × α)) (before : Nat → α) :
    ∃ after, Enqueued workSize tpb kernel before after := by
  obtain ⟨after, outcome⟩ := WorkItems.outcome_exists workSize kernel before
  exact ⟨after, groups, outcome⟩

end Vectors

variable {K : Type*} [Field K]

def fma {lanes : Nat} (a b c : Fin lanes → K) : Fin lanes → K :=
  fun lane => a lane * b lane + c lane

/-- `discri_ls_fma`, where `alphas` and `previous` are the two bracketed lists. -/
def lsFma (lanes : Nat) (alphas : K → K) (previous : K → (Fin lanes → K) → K)
    (input : Nat → K) (alpha : K) (gid : Nat) : List (Nat × K) :=
  let in_ := if gid = 0 then input 0 else input (gid * lanes - 1)
  let fn_ := if gid = 0 then in_ / alpha else in_
  let fn := vload lanes gid input
  let out := fma (splat (alphas alpha)) fn (splat (previous fn_ fn))
  vstore out gid

namespace DiscriOpencl

def discri (input : Nat → K) (alpha : K) (gid : Nat) : List (Nat × K) :=
  if gid = 0 then [(gid, 0)] else [(gid, input gid - alpha * input (gid - 1))]

def kernelGPU (width : Nat) (input : Nat → K) (alpha : K) : (Nat → K) → (Nat → K) → Prop :=
  Enqueued width 16 (discri input alpha)

end DiscriOpencl

namespace DiscriOpenclInt2

def discriLsFma (input : Nat → K) (alpha : K) : Nat → List (Nat × K) :=
  lsFma 2 (fun alpha => comma (-alpha) (-alpha)) (fun fn_ fn2 => comma fn_ (fn2 0))
    input alpha

def kernelGPU2 (width : Nat) (input : Nat → K) (alpha : K) : (Nat → K) → (Nat → K) → Prop :=
  Enqueued (width / 2) 16 (discriLsFma input alpha)

end DiscriOpenclInt2

namespace DiscriOpenclInt4

def discriLsFma (input : Nat → K) (alpha : K) : Nat → List (Nat × K) :=
  lsFma 4 (fun alpha => comma (comma (comma (-alpha) (-alpha)) (-alpha)) (-alpha))
    (fun fn_ fn4 => comma (comma (comma fn_ (fn4 0)) (fn4 1)) (fn4 2)) input alpha

def kernelGPU4 (width : Nat) (input : Nat → K) (alpha : K) : (Nat → K) → (Nat → K) → Prop :=
  Enqueued (width / 4) 16 (discriLsFma input alpha)

end DiscriOpenclInt4

section Outputs

variable {lanes width gid : Nat} {alphas : K → K} {previous : K → (Fin lanes → K) → K}
  {e before after : Nat → K} {alpha : K}

theorem discri_blocks : WorkItems.Blocks 1 (DiscriOpencl.discri e alpha) := by
  intro gid
  rw [DiscriOpencl.discri]
  split <;> simp

theorem kernelGPU_value (launched : DiscriOpencl.kernelGPU width e alpha before after) {n : Nat}
    (inside : n < width) : after n = discriSignal alpha e n := by
  apply launched.2.value discri_blocks inside
  rw [DiscriOpencl.discri, discriSignal]
  by_cases first : n = 0
  · rw [if_pos first, if_pos first]
    exact List.mem_singleton.mpr rfl
  · rw [if_neg first, if_neg first]
    exact List.mem_singleton.mpr rfl

theorem lsFma_value (source : Fin lanes)
    (sign : alphas alpha = -alpha) (last : ∀ fn_ fn, previous fn_ fn = fn source)
    (launched : Enqueued (width / lanes) 16 (lsFma lanes alphas previous e alpha)
      before after) (whole : lanes ∣ width) {n : Nat} (inside : n < width) :
    after n = -alpha * e n + e (lanes * (n / lanes) + source) := by
  have positive : 0 < lanes := Nat.zero_lt_of_lt source.isLt
  have group : n / lanes < width / lanes := Nat.div_lt_div_of_lt_of_dvd whole inside
  apply launched.2.value vstore_blocks group
  refine List.mem_map.mpr ⟨⟨n % lanes, Nat.mod_lt n positive⟩, List.mem_finRange _, ?_⟩
  simp only [fma, splat, vload, sign, last, Nat.div_add_mod]

theorem kernelGPU2_value (launched : DiscriOpenclInt2.kernelGPU2 width e alpha before after)
    (whole : 2 ∣ width) {n : Nat} (inside : n < width) :
    after n = -alpha * e n + e (2 * (n / 2)) :=
  lsFma_value 0 rfl (fun _ _ => rfl) launched whole inside

theorem kernelGPU4_value (launched : DiscriOpenclInt4.kernelGPU4 width e alpha before after)
    (whole : 4 ∣ width) {n : Nat} (inside : n < width) :
    after n = -alpha * e n + e (4 * (n / 4) + 2) :=
  lsFma_value 2 rfl (fun _ _ => rfl) launched whole inside

end Outputs

section Agreement

def Agrees {α : Type*} [LinearOrder α] (cpu : CImg α) (after : Nat → α) : Prop :=
  (∀ n < cpu.width, after n = cpu.data n) ∧ ∀ th, calculTi ⟨cpu.width, after⟩ th = calculTi cpu th

theorem agrees_of_same {α : Type*} [LinearOrder α] {cpu : CImg α} {after : Nat → α}
    (same : ∀ n < cpu.width, after n = cpu.data n) : Agrees cpu after :=
  ⟨same, calculTi_congr rfl same⟩

variable {width : Nat} {e : Nat → K} {alpha : K}

/-- The samples on which the lanes agree with the signal: a level frame, up to
the last lane of four where the decay is `-1`. -/
def Level (alpha : K) (e : Nat → K) (n : Nat) : Prop :=
  if n = 0 then alpha = 1 ∨ e 0 = 0 else e n = e (n - 1) ∨ (alpha = -1 ∧ n % 4 = 3)

theorem first_lane_iff : -alpha * e 0 + e 0 = discriSignal alpha e 0 ↔ alpha = 1 ∨ e 0 = 0 := by
  rw [discriSignal, if_pos rfl]
  constructor
  · intro same
    have product : (1 - alpha) * e 0 = 0 := by linear_combination same
    cases mul_eq_zero.mp product with
    | inl one => exact Or.inl (sub_eq_zero.mp one).symm
    | inr zero => exact Or.inr zero
  · rintro (one | zero)
    · rw [one]
      ring
    · rw [zero]
      ring

theorem own_lane_iff (decay : alpha ≠ 0) {n : Nat} (later : n ≠ 0) :
    -alpha * e n + e n = discriSignal alpha e n ↔ e n = e (n - 1) := by
  rw [discriSignal, if_neg later, discri]
  constructor
  · intro same
    apply mul_left_cancel₀ decay
    linear_combination -same
  · intro level
    rw [← level]
    ring

theorem previous_lane_iff {n : Nat} (later : n ≠ 0) :
    -alpha * e n + e (n - 1) = discriSignal alpha e n ↔ e n = e (n - 1) ∨ alpha = -1 := by
  rw [discriSignal, if_neg later, discri]
  constructor
  · intro same
    have product : (e n - e (n - 1)) * (alpha + 1) = 0 := by linear_combination -same
    cases mul_eq_zero.mp product with
    | inl level => exact Or.inl (sub_eq_zero.mp level)
    | inr sign => exact Or.inr (eq_neg_of_add_eq_zero_left sign)
  · rintro (level | sign)
    · rw [level]
      ring
    · rw [sign]
      ring

theorem Level.step {n : Nat} (level : Level alpha e n) (later : n ≠ 0) (early : n % 4 ≠ 3) :
    e n = e (n - 1) := by
  rw [Level, if_neg later] at level
  cases level with
  | inl same => exact same
  | inr sign => exact absurd sign.2 early

theorem level_of_lanes (decay : alpha ≠ 0) (whole : 4 ∣ width)
    (pairs : ∀ n < width, -alpha * e n + e (2 * (n / 2)) = discriSignal alpha e n)
    (quads : ∀ n < width, -alpha * e n + e (4 * (n / 4) + 2) = discriSignal alpha e n)
    {n : Nat} (inside : n < width) : Level alpha e n := by
  have even {i : Nat} (bound : i < width) (later : i ≠ 0) (parity : i % 2 = 0) :
      e i = e (i - 1) := by
    apply (own_lane_iff decay later).mp
    have lane := pairs i bound
    rwa [(by omega : 2 * (i / 2) = i)] at lane
  rw [Level]
  by_cases first : n = 0
  · rw [if_pos first]
    have lane := pairs 0 (by omega)
    exact first_lane_iff.mp lane
  · rw [if_neg first]
    by_cases parity : n % 2 = 0
    · exact Or.inl (even inside first parity)
    · have lane := pairs n inside
      rw [(by omega : 2 * (n / 2) = n - 1)] at lane
      cases (previous_lane_iff first).mp lane with
      | inl level => exact Or.inl level
      | inr sign =>
          by_cases fourth : n % 4 = 3
          · exact Or.inr ⟨sign, fourth⟩
          · -- the second of four lanes adds the third sample, which an even lane levels
            have next : e (n + 1) = e n := even (by omega) (by omega) (by omega)
            have lane := quads n inside
            rw [(by omega : 4 * (n / 4) + 2 = n + 1), next] at lane
            exact Or.inl ((own_lane_iff decay first).mp lane)

theorem own_lane_of_level (decay : alpha ≠ 0) {n : Nat} (level : Level alpha e n)
    (early : n % 4 ≠ 3) : -alpha * e n + e n = discriSignal alpha e n := by
  by_cases first : n = 0
  · rw [Level, if_pos first] at level
    rw [first]
    exact first_lane_iff.mpr level
  · exact (own_lane_iff decay first).mpr (level.step first early)

theorem previous_lane_of_level {n : Nat} (later : n ≠ 0) (level : Level alpha e n) :
    -alpha * e n + e (n - 1) = discriSignal alpha e n := by
  rw [Level, if_neg later] at level
  exact (previous_lane_iff later).mpr (level.imp_right And.left)

theorem pairs_of_level (decay : alpha ≠ 0) {n : Nat} (level : Level alpha e n) :
    -alpha * e n + e (2 * (n / 2)) = discriSignal alpha e n := by
  by_cases parity : n % 2 = 0
  · rw [(by omega : 2 * (n / 2) = n)]
    exact own_lane_of_level decay level (by omega)
  · rw [(by omega : 2 * (n / 2) = n - 1)]
    exact previous_lane_of_level (by omega) level

theorem quads_of_level (decay : alpha ≠ 0) (whole : 4 ∣ width)
    (level : ∀ n < width, Level alpha e n) {n : Nat} (inside : n < width) :
    -alpha * e n + e (4 * (n / 4) + 2) = discriSignal alpha e n := by
  by_cases fourth : n % 4 = 3
  · rw [(by omega : 4 * (n / 4) + 2 = n - 1)]
    exact previous_lane_of_level (by omega) (level n inside)
  · have third : e (4 * (n / 4) + 2) = e (4 * (n / 4) + 1) :=
      (level _ (by omega)).step (by omega) (by omega)
    have second : e (4 * (n / 4) + 1) = e (4 * (n / 4)) :=
      (level _ (by omega)).step (by omega) (by omega)
    have same : e (4 * (n / 4) + 2) = e n := by
      obtain lane | lane | lane : n = 4 * (n / 4) ∨ n = 4 * (n / 4) + 1 ∨ n = 4 * (n / 4) + 2 := by
        omega
      · rw [third, second, ← lane]
      · rw [third, ← lane]
      · rw [← lane]
    rw [same]
    exact own_lane_of_level decay (level n inside) fourth

theorem gpu_signals_iff [LinearOrder K] {s cpu : CImg K} (whole : 64 ∣ width) (decay : alpha ≠ 0)
    (scratch : s.width = width) (computed : discriSimple ⟨width, e⟩ s alpha = some cpu) :
    ((∀ before after, DiscriOpencl.kernelGPU width e alpha before after → Agrees cpu after) ∧
      (∀ before after, DiscriOpenclInt2.kernelGPU2 width e alpha before after →
        Agrees cpu after) ∧
      ∀ before after, DiscriOpenclInt4.kernelGPU4 width e alpha before after →
        Agrees cpu after) ↔
    ∀ n < width, Level alpha e n := by
  obtain ⟨sameWidth, values⟩ :
      cpu.width = width ∧ ∀ n < width, cpu.data n = discriSignal alpha e n :=
    discriSimple_eq_some scratch computed
  constructor
  · rintro ⟨_, pairAgrees, quadAgrees⟩ n inside
    obtain ⟨pair, pairRan⟩ := enqueued_exists (by omega : 16 ∣ width / 2)
      (DiscriOpenclInt2.discriLsFma e alpha) e
    obtain ⟨quad, quadRan⟩ := enqueued_exists (by omega : 16 ∣ width / 4)
      (DiscriOpenclInt4.discriLsFma e alpha) e
    apply level_of_lanes decay (by omega : 4 ∣ width) _ _ inside
    · intro i bound
      rw [← kernelGPU2_value pairRan (by omega) bound, ← values i bound]
      exact (pairAgrees e pair pairRan).1 i (by omega)
    · intro i bound
      rw [← kernelGPU4_value quadRan (by omega) bound, ← values i bound]
      exact (quadAgrees e quad quadRan).1 i (by omega)
  · intro level
    refine ⟨?_, ?_, ?_⟩
    · intro before after launched
      apply agrees_of_same
      intro n bound
      rw [kernelGPU_value launched (by omega), values n (by omega)]
    · intro before after launched
      apply agrees_of_same
      intro n bound
      rw [kernelGPU2_value launched (by omega) (by omega), values n (by omega)]
      exact pairs_of_level decay (level n (by omega))
    · intro before after launched
      apply agrees_of_same
      intro n bound
      rw [kernelGPU4_value launched (by omega) (by omega), values n (by omega)]
      exact quads_of_level decay (by omega) level (by omega)

theorem gpu_signals_silent :
    ∃ cpu : CImg ℚ, discriSimple ⟨64, fun _ => 0⟩ ⟨64, fun _ => 0⟩ (1 / 2) = some cpu ∧
      (((∀ before after, DiscriOpencl.kernelGPU 64 (fun _ => 0) (1 / 2) before after →
          Agrees cpu after) ∧
        (∀ before after, DiscriOpenclInt2.kernelGPU2 64 (fun _ => 0) (1 / 2) before after →
          Agrees cpu after) ∧
        ∀ before after, DiscriOpenclInt4.kernelGPU4 64 (fun _ => 0) (1 / 2) before after →
          Agrees cpu after) ↔
      ∀ n < 64, Level (1 / 2 : ℚ) (fun _ => 0) n) := by
  obtain ⟨cpu, computed, _⟩ := discriSimple_spec (e := (⟨64, fun _ => 0⟩ : CImg ℚ))
    (s := ⟨64, fun _ => 0⟩) (1 / 2) (by decide) rfl
  exact ⟨cpu, computed, gpu_signals_iff (by decide) (by norm_num) rfl computed⟩

def stepFrame (n : Nat) : ℚ := if n < 32 then 0 else 1

theorem gpu_signals_step :
    ∃ pair quad, DiscriOpenclInt2.kernelGPU2 64 stepFrame (1 / 2) (fun _ => 0) pair ∧
      DiscriOpenclInt4.kernelGPU4 64 stepFrame (1 / 2) (fun _ => 0) quad ∧
      pair 32 ≠ discriSignal (1 / 2) stepFrame 32 ∧
      quad 32 ≠ discriSignal (1 / 2) stepFrame 32 := by
  obtain ⟨pair, pairRan⟩ := enqueued_exists (by decide : 16 ∣ 64 / 2)
    (DiscriOpenclInt2.discriLsFma stepFrame (1 / 2)) fun _ => 0
  obtain ⟨quad, quadRan⟩ := enqueued_exists (by decide : 16 ∣ 64 / 4)
    (DiscriOpenclInt4.discriLsFma stepFrame (1 / 2)) fun _ => 0
  refine ⟨pair, quad, pairRan, quadRan, ?_, ?_⟩
  · rw [kernelGPU2_value pairRan (by decide) (by decide)]
    norm_num [stepFrame, discriSignal, discri]
  · rw [kernelGPU4_value quadRan (by decide) (by decide)]
    norm_num [stepFrame, discriSignal, discri]

end Agreement

end RockAMali
