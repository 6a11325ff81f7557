import Mathlib.Logic.Function.Basic
import RockAMali.Library.Loop

/-!
One dimensional images of `CImg.h`. An access outside the image, which the
library does not check, gives nothing.
-/

namespace RockAMali

universe u

structure CImg (α : Type*) where
  width : Nat
  data : Nat → α

namespace CImg

variable {α : Type*} {image : CImg α} {x : Nat}

def read (image : CImg α) (x : Int) : Option α :=
  if 0 ≤ x ∧ x < image.width then some (image.data x.toNat) else none

def set (image : CImg α) (x : Nat) (value : α) : CImg α :=
  { image with data := Function.update image.data x value }

def write (image : CImg α) (x : Int) (value : α) : Option (CImg α) :=
  if 0 ≤ x ∧ x < image.width then some (image.set x.toNat value) else none

@[simp] theorem set_width (value : α) : (image.set x value).width = image.width := rfl

@[simp] theorem set_data_self (value : α) : (image.set x value).data x = value := by
  simp [set]

@[simp] theorem set_data_of_ne {other : Nat} (different : other ≠ x) (value : α) :
    (image.set x value).data other = image.data other := by
  simp [set, different]

theorem read_of_lt (inside : x < image.width) : image.read x = some (image.data x) := by
  simp [read, inside]

theorem write_of_lt (inside : x < image.width) (value : α) :
    image.write x value = some (image.set x value) := by
  simp [write, inside]

theorem write_eq_some {place : Int} {value : α} {written : CImg α} :
    image.write place value = some written ↔
      (0 ≤ place ∧ place < image.width) ∧ image.set place.toNat value = written := by
  rw [write]
  split
  · simp [*]
  · rename_i outside
    simp only [outside, false_and, reduceCtorEq]

theorem read_congr {other : CImg α} (width : image.width = other.width)
    (same : ∀ n < other.width, image.data n = other.data n) (x : Int) :
    image.read x = other.read x := by
  rw [read, read, width]
  split
  · rw [same x.toNat (by omega)]
  · rfl

structure AgreeBelow (condition : Prop) (size : Nat) (n : Int) (image other : CImg α) : Prop where
  width : image.width = size
  otherWidth : other.width = size
  data : condition → ∀ x < size, (x : Int) < n → image.data x = other.data x

namespace AgreeBelow

variable {condition : Prop} {size : Nat} {n : Int} {other : CImg α}

theorem of_width (width : image.width = size) (otherWidth : other.width = size) :
    AgreeBelow condition size 0 image other :=
  ⟨width, otherWidth, fun _ x _ before => by omega⟩

theorem refl (width : image.width = size) (n : Int) : AgreeBelow condition size n image image :=
  ⟨width, width, fun _ _ _ _ => rfl⟩

theorem extend (agree : AgreeBelow condition size n image other) {m : Int}
    (rest : m ≤ n ∨ (size : Int) ≤ n) : AgreeBelow condition size m image other :=
  ⟨agree.width, agree.otherWidth, fun same x inside _ => agree.data same x inside (by omega)⟩

theorem read (agree : AgreeBelow condition size n image other) {x : Int} (before : x < n) :
    Option.Rel (fun sample otherSample => condition → sample = otherSample) (image.read x)
      (other.read x) := by
  rw [CImg.read, CImg.read, agree.width, agree.otherWidth]
  split
  · exact .some fun same => agree.data same x.toNat (by omega) (by omega)
  · exact .none

theorem read_all (agree : AgreeBelow condition size size image other) (x : Int) :
    Option.Rel (fun sample otherSample => condition → sample = otherSample) (image.read x)
      (other.read x) := by
  by_cases inside : x < size
  · exact agree.read inside
  · rw [CImg.read, CImg.read, if_neg (by have := agree.width; omega),
      if_neg (by have := agree.otherWidth; omega)]
    exact .none

theorem write (agree : AgreeBelow condition size n image other) {value otherValue : α}
    (sameValue : condition → value = otherValue) :
    Option.Rel (AgreeBelow condition size (n + 1)) (image.write n value)
      (other.write n otherValue) := by
  rw [CImg.write, CImg.write, agree.width, agree.otherWidth]
  split
  · refine .some ⟨agree.width, agree.otherWidth, ?_⟩
    intro same x inside before
    by_cases last : x = n.toNat
    · rw [last, set_data_self, set_data_self, sameValue same]
    · rw [set_data_of_ne last, set_data_of_ne last]
      exact agree.data same x inside (by omega)
  · exact .none

end AgreeBelow

end CImg

/-- `cimg_for_inX(img,x0,x1,x)` visits both ends. -/
def cimgForInX {σ : Type*} (width : Nat) (x0 x1 : Int) (body : Int → σ → Option σ) (state : σ) :
    Option σ :=
  Loop.upTo (if x0 < 0 then 0 else x0) (if x1 < width then x1 else width - 1) body state

theorem cimgForInX_rule {σ : Type*} {width : Nat} {x0 x1 : Int} {body : Int → σ → Option σ}
    {state : σ} (first stop : Nat) (holds : Nat → σ → Prop)
    (lower : (if x0 < 0 then 0 else x0) = first)
    (upper : (if x1 < width then x1 else width - 1) + 1 = (stop : Int))
    (order : first ≤ stop) (start : holds first state)
    (step : ∀ n, first ≤ n → n < stop → ∀ current, holds n current →
      ∃ next, body n current = some next ∧ holds (n + 1) next) :
    ∃ final, cimgForInX width x0 x1 body state = some final ∧ holds stop final := by
  have last : (if x1 < width then x1 else width - 1 : Int) = stop - 1 := by omega
  have final : ((stop : Int) - 1 + 1).toNat = stop := by omega
  rw [cimgForInX, lower, last]
  have rule : ∃ final, Loop.upTo first (stop - 1) body state = some final ∧
      holds ((stop : Int) - 1 + 1).toNat final := by
    apply Loop.upTo_rule fun i current => holds i.toNat current
    · omega
    · exact start
    · intro i lowerBound upperBound current held
      obtain ⟨n, rfl⟩ := Int.eq_ofNat_of_zero_le (by omega : 0 ≤ i)
      exact step n (by omega) (by omega) current held
  rw [final] at rule
  exact rule

theorem cimgForInX_toNat {σ : Type*} {width : Nat} {x0 x1 : Int} {body : Int → σ → Option σ}
    {state : σ} : cimgForInX width x0 x1 body state = cimgForInX width x0.toNat x1 body state := by
  have clamped : (if (x0.toNat : Int) < 0 then 0 else (x0.toNat : Int)) = if x0 < 0 then 0 else x0 := by
    split <;> split <;> omega
  rw [cimgForInX, cimgForInX, clamped]

theorem cimgForInX_before {σ : Type*} {width : Nat} {x0 x1 : Int} {body : Int → σ → Option σ}
    {state : σ} (before : x1 < 0) : cimgForInX width x0 x1 body state = some state := by
  apply Loop.upTo_empty
  split <;> split <;> omega

theorem cimgForInX_runs {σ : Type*} {width : Nat} {x0 x1 : Int} {body : Int → σ → Option σ}
    (state : σ) (step : ∀ i : Int, 0 ≤ i → i < width → ∀ current, ∃ next, body i current = some next) :
    ∃ final, cimgForInX width x0 x1 body state = some final := by
  rw [cimgForInX]
  generalize lower : (if x0 < 0 then 0 else x0) = first
  generalize upper : (if x1 < width then x1 else width - 1 : Int) = last
  by_cases empty : last < first
  · exact ⟨state, Loop.upTo_empty empty⟩
  · have runs : ∃ final, Loop.upTo first last body state = some final ∧ True := by
      apply Loop.upTo_rule fun _ _ => True
      · omega
      · trivial
      · intro i lowerBound upperBound current _
        obtain ⟨next, taken⟩ := step i (by omega) (by omega) current
        exact ⟨next, taken, trivial⟩
    obtain ⟨final, ran, _⟩ := runs
    exact ⟨final, ran⟩

theorem cimgForInX_rel {σ ρ : Type u} {width : Nat} {x0 x1 : Int} {body : Int → σ → Option σ}
    {body' : Int → ρ → Option ρ} {state : σ} {state' : ρ} {ended : σ → ρ → Prop}
    (related : Int → σ → ρ → Prop) (start : related (if x0 < 0 then 0 else x0) state state')
    (step : ∀ i, 0 ≤ i → x0 ≤ i → i < width → ∀ current other, related i current other →
      Option.Rel (related (i + 1)) (body i current) (body' i other))
    (finish : ∀ stop, 0 ≤ stop → x0 ≤ stop → x1 < stop ∨ (width : Int) ≤ stop →
      ∀ current other, related stop current other → ended current other) :
    Option.Rel ended (cimgForInX width x0 x1 body state) (cimgForInX width x0 x1 body' state') := by
  rw [cimgForInX, cimgForInX]
  generalize lower : (if x0 < 0 then 0 else x0) = first at start ⊢
  generalize upper : (if x1 < width then x1 else width - 1 : Int) = last
  by_cases empty : last < first
  · rw [Loop.upTo_empty empty, Loop.upTo_empty empty]
    exact .some (finish first (by omega) (by omega) (by omega) state state' start)
  · have runs : Option.Rel (related (last + 1)) (Loop.upTo first last body state)
        (Loop.upTo first last body' state') := by
      apply Loop.upTo_rel related
      · omega
      · exact start
      · intro i lowerBound upperBound
        exact step i (by omega) (by omega) (by omega)
    exact Loop.rel_mono runs (finish _ (by omega) (by omega) (by omega))

theorem cimgForInX_empty {σ : Type*} {width : Nat} {x0 x1 : Int} {body : Int → σ → Option σ}
    {state : σ} (empty : (width : Int) ≤ x0) : cimgForInX width x0 x1 body state = some state := by
  apply Loop.upTo_empty
  split <;> split <;> omega

section Fill

variable {S : Type*}

theorem cimgForInX_fill {σ : Type*} {body : Int → σ → Option σ} (state : σ) (image : σ → CImg S)
    (tracked : Nat → σ → Prop) (value : Nat → S) (x0 x1 : Nat) (start : tracked x0 state)
    (step : ∀ n current, x0 ≤ n → n ≤ x1 → n < (image current).width → tracked n current →
      ∃ next, body n current = some next ∧ tracked (n + 1) next ∧
        image next = (image current).set n (value n)) :
    ∃ last, cimgForInX (image state).width x0 x1 body state = some last ∧
      (image last).width = (image state).width ∧
      ∀ n < (image state).width, (image last).data n =
        if x0 ≤ n ∧ n ≤ x1 then value n else (image state).data n := by
  by_cases some_pass : x0 ≤ x1 ∧ x0 < (image state).width
  · have loop : ∃ last, cimgForInX (image state).width x0 x1 body state = some last ∧
        (tracked (min (x1 + 1) (image state).width) last ∧
          (image last).width = (image state).width ∧ ∀ n, (image last).data n =
            if x0 ≤ n ∧ n < min (x1 + 1) (image state).width then value n
            else (image state).data n) := by
      apply cimgForInX_rule x0 (min (x1 + 1) (image state).width) fun i (current : σ) =>
        tracked i current ∧ (image current).width = (image state).width ∧
          ∀ n, (image current).data n =
            if x0 ≤ n ∧ n < i then value n else (image state).data n
      · split <;> omega
      · split <;> omega
      · omega
      · exact ⟨start, rfl, fun n => (if_neg (by omega)).symm⟩
      · intro i lower upper current held
        obtain ⟨here, width, filled⟩ := held
        obtain ⟨next, taken, there, written⟩ := step i current lower (by omega) (by omega) here
        refine ⟨next, taken, there, by rw [written, CImg.set_width, width], ?_⟩
        intro n
        rw [written]
        by_cases last : n = i
        · rw [last, CImg.set_data_self, if_pos (by omega)]
        · rw [CImg.set_data_of_ne last, filled n]
          congr 1
          exact propext (by omega)
    obtain ⟨last, ran, _, width, filled⟩ := loop
    refine ⟨last, ran, width, ?_⟩
    intro n inside
    rw [filled n]
    congr 1
    exact propext (by omega)
  · refine ⟨state, Loop.upTo_empty ?_, rfl, ?_⟩
    · split <;> split <;> omega
    · intro n inside
      rw [if_neg (by omega)]

theorem cimgForInX_fill_int {σ : Type*} {body : Int → σ → Option σ} (state : σ) (image : σ → CImg S)
    (tracked : Nat → σ → Prop) (value : Nat → S) (x0 x1 : Int) (start : tracked x0.toNat state)
    (step : ∀ n current, x0.toNat ≤ n → (n : Int) ≤ x1 → n < (image current).width →
      tracked n current →
      ∃ next, body n current = some next ∧ tracked (n + 1) next ∧
        image next = (image current).set n (value n)) :
    ∃ last, cimgForInX (image state).width x0 x1 body state = some last ∧
      (image last).width = (image state).width ∧
      ∀ n < (image state).width, (image last).data n =
        if x0 ≤ n ∧ n ≤ x1 then value n else (image state).data n := by
  by_cases before : x1 < 0
  · refine ⟨state, cimgForInX_before before, rfl, ?_⟩
    intro n inside
    rw [if_neg (by omega)]
  · obtain ⟨end_, rfl⟩ := Int.eq_ofNat_of_zero_le (by omega : 0 ≤ x1)
    obtain ⟨last, ran, width, filled⟩ :=
      cimgForInX_fill state image tracked value x0.toNat end_ start
        fun n current lower upper => step n current lower (by omega)
    refine ⟨last, cimgForInX_toNat.trans ran, width, ?_⟩
    intro n inside
    rw [filled n inside]
    congr 1
    exact propext (by omega)

theorem cimgForInX_count (image : CImg S) (x0 x1 : Int) (value : Int → S) :
    ∃ last, cimgForInX image.width x0 x1 (fun i (count, image) => do
        some (count + 1, ← image.write i (value count))) ((0 : Int), image) = some last ∧
      last.2.width = image.width ∧
      ∀ n < image.width, last.2.data n =
        if x0 ≤ n ∧ n ≤ x1 then value (n - x0.toNat : Nat) else image.data n := by
  apply cimgForInX_fill_int ((0 : Int), image) Prod.snd
    (fun n (current : Int × CImg S) => current.1 = (n - x0.toNat : Nat))
    (fun n => value (n - x0.toNat : Nat)) x0 x1
  · simp
  · intro n current lower _ inside counted
    refine ⟨(current.1 + 1, current.2.set n (value current.1)), ?_, ?_, ?_⟩
    · simp only [CImg.write_of_lt inside, Option.bind_eq_bind, Option.bind_some]
    · simp only [counted]
      omega
    · simp only [counted]

end Fill

end RockAMali
