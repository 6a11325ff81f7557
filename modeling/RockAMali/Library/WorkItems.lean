import Mathlib.Data.List.Range
import Mathlib.Data.List.Nodup
import Mathlib.Logic.Function.Basic

/-!
Work items of a data parallel launch. Each stores a block of its own, so that
every order in which the stores reach the memory ends the same.
-/

namespace WorkItems

variable {α : Type*}

def perform (memory : Nat → α) (stores : List (Nat × α)) : Nat → α :=
  stores.foldl (fun memory store => Function.update memory store.1 store.2) memory

def launch (workSize : Nat) (item : Nat → List (Nat × α)) : List (Nat × α) :=
  (List.range workSize).flatMap item

def Outcome (workSize : Nat) (item : Nat → List (Nat × α)) (before after : Nat → α) : Prop :=
  ∃ order, order.Perm (launch workSize item) ∧ after = perform before order

def Blocks (lanes : Nat) (item : Nat → List (Nat × α)) : Prop :=
  ∀ gid, (item gid).map Prod.fst = (List.range lanes).map fun lane => lanes * gid + lane

variable {lanes workSize : Nat} {item : Nat → List (Nat × α)} {before after memory : Nat → α}

theorem perform_of_notMem {stores : List (Nat × α)} {place : Nat}
    (untouched : place ∉ stores.map Prod.fst) : perform memory stores place = memory place := by
  induction stores generalizing memory with
  | nil => rfl
  | cons store rest ih =>
      simp only [List.map_cons, List.mem_cons, not_or] at untouched
      obtain ⟨other, later⟩ := untouched
      rw [perform, List.foldl_cons]
      exact (ih later).trans (Function.update_of_ne other _ _)

theorem perform_of_mem {stores : List (Nat × α)} (distinct : (stores.map Prod.fst).Nodup)
    {place : Nat} {value : α} (stored : (place, value) ∈ stores) :
    perform memory stores place = value := by
  induction stores generalizing memory with
  | nil => cases stored
  | cons store rest ih =>
      rw [List.map_cons, List.nodup_cons] at distinct
      rw [perform, List.foldl_cons]
      cases stored with
      | head => exact (perform_of_notMem distinct.1).trans (Function.update_self _ _ _)
      | tail _ later => exact ih distinct.2 later

theorem launch_places (blocks : Blocks lanes item) (workSize : Nat) :
    (launch workSize item).map Prod.fst = List.range (lanes * workSize) := by
  induction workSize with
  | zero => rfl
  | succ workSize ih =>
      rw [launch] at ih
      rw [launch, List.range_succ, List.flatMap_append, List.map_append, ih, List.flatMap_singleton,
        blocks, Nat.mul_succ, List.range_add]

theorem Outcome.value (outcome : Outcome workSize item before after) (blocks : Blocks lanes item)
    {gid place : Nat} {value : α} (launched : gid < workSize)
    (stored : (place, value) ∈ item gid) : after place = value := by
  obtain ⟨order, perm, rfl⟩ := outcome
  have places : (order.map Prod.fst).Perm (List.range (lanes * workSize)) := by
    rw [← launch_places blocks]
    exact perm.map Prod.fst
  apply perform_of_mem
  · exact places.nodup_iff.mpr List.nodup_range
  · exact perm.mem_iff.mpr (List.mem_flatMap.mpr ⟨gid, List.mem_range.mpr launched, stored⟩)

theorem outcome_exists (workSize : Nat) (item : Nat → List (Nat × α)) (before : Nat → α) :
    ∃ after, Outcome workSize item before after :=
  ⟨_, launch workSize item, List.Perm.refl _, rfl⟩

end WorkItems
