import Mathlib.Algebra.BigOperators.Group.Finset.Piecewise
import Mathlib.Data.Nat.Count
import Mathlib.Data.Nat.ModEq
import Mathlib.Data.Int.CardIntervalMod

/-!
A baton handed round a fixed cycle of stations, and the number of visits a
party has made to one place when it visits a sequence of places.
-/

namespace Relay

structure Baton (stations : Nat) where
  lap : Nat
  stage : Fin stations

variable {stations : Nat}

def Baton.served (baton : Baton stations) (station : Nat) : Nat :=
  baton.lap + if station < baton.stage then 1 else 0

def Baton.next (baton : Baton stations) : Baton stations :=
  if within : baton.stage + 1 < stations then ⟨baton.lap, ⟨baton.stage + 1, within⟩⟩
  else ⟨baton.lap + 1, ⟨0, by have := baton.stage.isLt; omega⟩⟩

@[simp] theorem Baton.served_stage (baton : Baton stations) :
    baton.served baton.stage = baton.lap := by
  simp [Baton.served]

theorem Baton.served_of_lt (baton : Baton stations) {station : Nat}
    (before : station < baton.stage) : baton.served station = baton.lap + 1 := by
  simp [Baton.served, before]

theorem Baton.served_of_ge (baton : Baton stations) {station : Nat}
    (after : baton.stage ≤ station) : baton.served station = baton.lap := by
  simp [Baton.served, Nat.not_lt.mpr after]

theorem Baton.served_antitone (baton : Baton stations) {first second : Nat}
    (order : first ≤ second) : baton.served second ≤ baton.served first := by
  simp only [Baton.served]
  split <;> split <;> omega

theorem Baton.next_stage (baton : Baton stations) :
    (baton.next.stage : Nat) = (baton.stage + 1) % stations := by
  have bound := baton.stage.isLt
  simp only [Baton.next]
  split
  · rename_i within
    exact (Nat.mod_eq_of_lt within).symm
  · have last : (baton.stage : Nat) + 1 = stations := by omega
    simp [last]

theorem Baton.served_next (baton : Baton stations) {station : Nat} (bound : station < stations) :
    baton.next.served station = baton.served station + if station = baton.stage then 1 else 0 := by
  have stageBound := baton.stage.isLt
  simp only [Baton.next, Baton.served]
  split <;> simp only
  · split <;> split <;> split <;> omega
  · split <;> split <;> split <;> omega

def visits (path : Nat → Nat) (steps place : Nat) : Nat :=
  Nat.count (fun step => path step = place) steps

@[simp] theorem visits_zero (path : Nat → Nat) (place : Nat) : visits path 0 place = 0 := by
  simp [visits]

theorem visits_succ (path : Nat → Nat) (steps place : Nat) :
    visits path (steps + 1) place =
      visits path steps place + if path steps = place then 1 else 0 := by
  simp [visits, Nat.count_succ]

theorem visits_mono (path : Nat → Nat) (place : Nat) {first second : Nat}
    (order : first ≤ second) : visits path first place ≤ visits path second place :=
  Nat.count_monotone _ order

theorem visits_lt (path : Nat → Nat) {first second : Nat} (order : first < second) :
    visits path first (path first) < visits path second (path first) := by
  have more := visits_mono path (path first) (Nat.succ_le_of_lt order)
  rw [Nat.succ_eq_add_one, visits_succ] at more
  simp only [if_true] at more
  omega

/-- On a ring visited slot after slot, visit number `step` is the one of lap
`step / size` to its slot. -/
theorem visits_mod {size : Nat} (positive : 0 < size) (step : Nat) :
    visits (fun visit => visit % size) step (step % size) = step / size := by
  have counted := Nat.count_modEq_card step positive step
  simp only [lt_irrefl, if_false, Nat.add_zero] at counted
  exact counted

theorem sum_visits {size steps : Nat} {path : Nat → Nat} (inside : ∀ step, path step < size) :
    ∑ place ∈ Finset.range size, visits path steps place = steps := by
  induction steps with
  | zero => simp
  | succ steps ih =>
      simp only [visits_succ, Finset.sum_add_distrib, ih, Finset.sum_ite_eq, Finset.mem_range,
        inside steps, if_true]

end Relay
