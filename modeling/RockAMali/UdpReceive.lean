import Mathlib.Algebra.Order.BigOperators.Group.List
import Mathlib.Data.Int.ModEq
import Mathlib.Data.UInt

/-!
The receive loop of `udp_receive.cpp`: frame index, increment, drop counters and
the records for the NetCDF files. `unsigned long` and `long` have 64 bits, `int`
has 32.
-/

namespace RockAMali

/-- The conversion of a `long` to `int`. -/
def narrow32 (value : Int) : Int := value.bmod (2 ^ 32)

structure Receive where
  i : Nat
  prevIndex : UInt32
  countDrop : Nat
  countDrops : Nat
  drops : List Int
  records : List (Int × Int)
deriving DecidableEq

def Receive.initial : Receive := ⟨0, 0, 0, 0, [], []⟩

def increment (prevIndex index : UInt32) : Int := (index.toNat : Int) - prevIndex.toNat

/-- The drop count of one frame, `const int count=abs(inc-1)`. -/
def dropped (prevIndex index : UInt32) : Int := narrow32 |increment prevIndex index - 1|

def Receive.iteration (doNetcdf : Bool) (state : Receive) (index : UInt32) : Receive :=
  let inc := increment state.prevIndex index
  let checked :=
    if inc ≠ 1 then
      if 0 < state.i then
        let count := dropped state.prevIndex index
        { state with
          countDrop := (state.countDrop + 1) % 2 ^ 64
          countDrops := ((state.countDrops + count) % 2 ^ 64).toNat
          drops := if doNetcdf then state.drops ++ List.replicate (count + 1).toNat count
            else state.drops }
      else state
    else { state with drops := if doNetcdf then state.drops ++ [0] else state.drops }
  { checked with
    i := state.i + 1
    prevIndex := index
    records := if doNetcdf then
        state.records ++ [(narrow32 index.toNat, narrow32 inc)] else state.records }

def Receive.run (doNetcdf : Bool) (state : Receive) : List UInt32 → Receive
  | [] => state
  | index :: rest => (state.iteration doNetcdf index).run doNetcdf rest

/-- The verdict that is printed as `test pass: zero drop`. -/
def Receive.testStatus (state : Receive) : Bool := state.countDrops == 0

def pairs {α : Type*} (first : α) : List α → List (α × α)
  | [] => []
  | next :: rest => (first, next) :: pairs next rest

theorem pairs_length {α : Type*} (first : α) (rest : List α) :
    (pairs first rest).length = rest.length := by
  induction rest generalizing first with
  | nil => rfl
  | cons next rest ih => simp [pairs, ih]

theorem pairs_map {α γ : Type*} (value : α → γ) (first : α) (rest : List α) :
    pairs (value first) (rest.map value) =
      (pairs first rest).map fun pair => (value pair.1, value pair.2) := by
  induction rest generalizing first with
  | nil => rfl
  | cons next rest ih => simp [pairs, ih]

section Counters

variable (doNetcdf : Bool) {state : Receive}

theorem dropped_of_next {prevIndex : UInt32} (next : increment prevIndex index = 1) :
    dropped prevIndex index = 0 := by
  simp [dropped, next, narrow32]

theorem Receive.iteration_countDrops (index : UInt32) (started : 0 < state.i)
    (room : state.countDrops < 2 ^ 64) :
    ((state.iteration doNetcdf index).countDrops : Int) =
      (state.countDrops + dropped state.prevIndex index) % 2 ^ 64 := by
  by_cases next : increment state.prevIndex index = 1
  · simp only [Receive.iteration, next, ne_eq, not_true_eq_false, if_false, dropped_of_next next]
    omega
  · simp only [Receive.iteration, next, ne_eq, not_false_eq_true, if_true, started]
    omega

theorem Receive.iteration_countDrop (index : UInt32) (started : 0 < state.i)
    (room : state.countDrop < 2 ^ 64) :
    (state.iteration doNetcdf index).countDrop =
      (state.countDrop + if increment state.prevIndex index ≠ 1 then 1 else 0) % 2 ^ 64 := by
  by_cases next : increment state.prevIndex index = 1
  · simp only [Receive.iteration, next, ne_eq, not_true_eq_false, if_false]
    omega
  · simp only [Receive.iteration, next, ne_eq, not_false_eq_true, if_true, started]

theorem Receive.run_countDrops {rest : List UInt32} (started : 0 < state.i)
    (room : state.countDrops < 2 ^ 64) :
    ((state.run doNetcdf rest).countDrops : Int) =
      (state.countDrops +
        ((pairs state.prevIndex rest).map fun pair => dropped pair.1 pair.2).sum) % 2 ^ 64 := by
  induction rest generalizing state with
  | nil =>
      simp only [Receive.run, pairs, List.map_nil, List.sum_nil]
      omega
  | cons index rest ih =>
      have step := Receive.iteration_countDrops doNetcdf index started room
      rw [Receive.run, ih (Nat.succ_pos state.i) (by omega), step, pairs, List.map_cons,
        List.sum_cons, Int.emod_add_emod, Int.add_assoc]
      rfl

theorem Receive.run_countDrop {rest : List UInt32} (started : 0 < state.i)
    (room : state.countDrop < 2 ^ 64) :
    (state.run doNetcdf rest).countDrop =
      (state.countDrop + (pairs state.prevIndex rest).countP
        fun pair => increment pair.1 pair.2 ≠ 1) % 2 ^ 64 := by
  induction rest generalizing state with
  | nil =>
      simp only [Receive.run, pairs, List.countP_nil]
      omega
  | cons index rest ih =>
      have step := Receive.iteration_countDrop doNetcdf index started room
      rw [Receive.run, ih (Nat.succ_pos state.i) (by omega), step, pairs, List.countP_cons,
        Nat.mod_add_mod, Nat.add_assoc, Nat.add_comm (List.countP _ (pairs index rest))]
      simp only [decide_eq_true_eq]
      rfl

theorem Receive.iteration_initial (index : UInt32) :
    (Receive.initial.iteration doNetcdf index).i = 1 ∧
      (Receive.initial.iteration doNetcdf index).prevIndex = index ∧
      (Receive.initial.iteration doNetcdf index).countDrop = 0 ∧
      (Receive.initial.iteration doNetcdf index).countDrops = 0 := by
  by_cases next : increment 0 index = 1 <;> simp [Receive.iteration, Receive.initial, next]

theorem Receive.run_initial (first : UInt32) (rest : List UInt32) :
    let last := Receive.initial.run doNetcdf (first :: rest)
    (last.countDrops : Int) =
        ((pairs first rest).map fun pair => dropped pair.1 pair.2).sum % 2 ^ 64 ∧
      last.countDrop =
        ((pairs first rest).countP fun pair => increment pair.1 pair.2 ≠ 1) % 2 ^ 64 := by
  obtain ⟨i, prevIndex, countDrop, countDrops⟩ := Receive.iteration_initial doNetcdf first
  have started : 0 < (Receive.initial.iteration doNetcdf first).i := by omega
  have total : (((Receive.initial.iteration doNetcdf first).run doNetcdf rest).countDrops : Int) = _ :=
    Receive.run_countDrops doNetcdf started (by omega)
  have number : ((Receive.initial.iteration doNetcdf first).run doNetcdf rest).countDrop = _ :=
    Receive.run_countDrop doNetcdf started (by omega)
  rw [prevIndex, countDrops, Nat.cast_zero, Int.zero_add] at total
  rw [prevIndex, countDrop, Nat.zero_add] at number
  exact ⟨total, number⟩

end Counters

end RockAMali
