import Mathlib.Logic.Function.Basic
import RockAMali.Library.Loop
import RockAMali.ThreadLock

/-!
The functions of `CAccessOMPLock` for a block of slots, which test the last slot
and change all of them.
-/

namespace RockAMali

/-- `for(int i=0;i<block_size;i++) block_what[i]=status;` with `block_what` at slot `n`. -/
def writeBlock (n : Nat) (status : Taccess) : Nat → (Nat → Taccess) → Nat → Taccess
  | 0, access => access
  | i + 1, access => Function.update (writeBlock n status i access) (n + i) status

theorem writeBlock_apply (n blockSize : Nat) (status : Taccess) (access : Nat → Taccess)
    (slot : Nat) : writeBlock n status blockSize access slot =
      if n ≤ slot ∧ slot < n + blockSize then status else access slot := by
  induction blockSize with
  | zero =>
      rw [if_neg (by omega)]
      rfl
  | succ size ih =>
      rw [writeBlock]
      by_cases last : slot = n + size
      · rw [last, Function.update_self, if_pos (by omega)]
      · rw [Function.update_of_ne last, ih]
        have same : (n ≤ slot ∧ slot < n + size) ↔ (n ≤ slot ∧ slot < n + (size + 1)) := by omega
        simp only [same]

def lastSlot (n blockSize : Nat) : Nat := n + (blockSize - 1)

/-- One pass of the loop of `wait_for_status_block`: the new content of the
bytes, or nothing when the thread has to sleep and look again. -/
def waitForStatusBlock (access : Nat → Taccess) (n blockSize : Nat) (status newStatus : Taccess) :
    Option (Nat → Taccess) :=
  if access (lastSlot n blockSize) = status then some (writeBlock n newStatus blockSize access)
  else none

/-! `set_status_block`, with the lock and with how often each byte was written. -/

structure LockedAccess where
  access : Nat → Taccess
  locked : Bool
  writes : Nat → Nat

namespace LockedAccess

def setLock (state : LockedAccess) : Option LockedAccess :=
  if state.locked then none else some { state with locked := true }

def unsetLock (state : LockedAccess) : LockedAccess := { state with locked := false }

def write (n blockSize : Nat) (status : Taccess) (state : LockedAccess) : LockedAccess :=
  { state with
    access := writeBlock n status blockSize state.access
    writes := fun slot =>
      state.writes slot + if n ≤ slot ∧ slot < n + blockSize then 1 else 0 }

/-- One pass of the loop, where `a` is what the last slot was before the loop. -/
def pass (n blockSize : Nat) (oldStatus status a : Taccess) (state : LockedAccess) :
    Option LockedAccess :=
  state.setLock.map fun held =>
    if a = oldStatus then (held.write n blockSize status).unsetLock else held

/-- Nothing stands for `exit(99)`, for a lock that is never free and for passes
without an end. -/
def setStatusBlock (n blockSize : Nat) (oldStatus status : Taccess) (fuel : Nat)
    (state : LockedAccess) : Option LockedAccess :=
  let a := state.access (lastSlot n blockSize)
  if a ≠ oldStatus then none
  else Loop.doWhile (pass n blockSize oldStatus status a) (fun _ => a ≠ status) fuel state

structure Released (n blockSize : Nat) (status : Taccess) (state last : LockedAccess) : Prop where
  slots : ∀ slot, n ≤ slot → slot < n + blockSize → last.access slot = status
  unlocked : last.locked = false
  once : ∀ slot, n ≤ slot → slot < n + blockSize → last.writes slot = state.writes slot + 1

variable {n blockSize : Nat} {oldStatus status : Taccess} {state : LockedAccess}

theorem pass_eq (unlocked : state.locked = false) :
    state.pass n blockSize oldStatus status oldStatus =
      some { state.write n blockSize status with locked := false } := by
  simp [pass, setLock, unlocked, write, unsetLock]

/-- Each pass releases the block and the lock, and writes the block again. -/
theorem passes_release (unlocked : state.locked = false) (passes : Nat) :
    ∃ last, Loop.times (fun _ => pass n blockSize oldStatus status oldStatus) passes state =
      some last ∧ last.locked = false ∧ ∀ slot, n ≤ slot → slot < n + blockSize →
        (0 < passes → last.access slot = status) ∧
          last.writes slot = state.writes slot + passes := by
  apply Loop.times_rule fun number (current : LockedAccess) => current.locked = false ∧
    ∀ slot, n ≤ slot → slot < n + blockSize → (0 < number → current.access slot = status) ∧
      current.writes slot = state.writes slot + number
  · exact ⟨unlocked, fun slot _ _ => ⟨fun none => by omega, rfl⟩⟩
  · rintro number _ current ⟨free, written⟩
    refine ⟨_, pass_eq free, rfl, fun slot lower upper => ⟨fun _ => ?_, ?_⟩⟩
    · simp only [write]
      rw [writeBlock_apply, if_pos ⟨lower, upper⟩]
    · simp only [write, if_pos (And.intro lower upper), (written slot lower upper).2]
      omega

theorem setStatusBlock_none (different : oldStatus ≠ status)
    (filling : state.access (lastSlot n blockSize) = oldStatus) (fuel : Nat) :
    state.setStatusBlock n blockSize oldStatus status fuel = none := by
  rw [setStatusBlock, filling, if_neg (not_not.mpr rfl)]
  exact Loop.doWhile_endless (fun _ => True) trivial
    (fun _ _ _ _ => ⟨trivial, decide_eq_true different⟩) fuel

/-- The loop tests the copy that was made before it, which no pass changes. -/
theorem set_status_block_never (different : oldStatus ≠ status)
    (filling : state.access (lastSlot n blockSize) = oldStatus) :
    ¬∃ fuel last, state.setStatusBlock n blockSize oldStatus status fuel = some last ∧
      Released n blockSize status state last := by
  rintro ⟨fuel, last, ran, _⟩
  rw [setStatusBlock_none different filling fuel] at ran
  cases ran

def fillingBlock : LockedAccess := ⟨fun _ => stateFilling, false, fun _ => 0⟩

theorem set_status_block_never_two :
    ¬∃ fuel last, fillingBlock.setStatusBlock 4 2 stateFilling statusFilled fuel = some last ∧
      Released 4 2 statusFilled fillingBlock last :=
  set_status_block_never (by decide) rfl

theorem set_status_block_fails :
    ¬∃ fuel last, fillingBlock.setStatusBlock 0 1 stateFilling statusFilled fuel = some last ∧
      Released 0 1 statusFilled fillingBlock last := by
  rintro ⟨fuel, last, ran, _⟩
  have endless : fillingBlock.setStatusBlock 0 1 stateFilling statusFilled fuel = none :=
    setStatusBlock_none (by decide) rfl fuel
  rw [endless] at ran
  cases ran

end LockedAccess

end RockAMali
