import Mathlib.Data.UInt

/-!
The status bytes of `CDataAccess.hpp` and the locked sections of
`thread_lock.hpp` that test and change one of them.
-/

namespace RockAMali

abbrev Taccess := UInt8

/-! `CDataAccess::ACCESS_STATUS_OR_STATE`. -/

def statusFree : Taccess := 0x0
def statusFilled : Taccess := 0x1
def statusReceived : Taccess := 0x1
def statusProcessed : Taccess := 0x2
def stateFilling : Taccess := 0xF
def stateReceiving : Taccess := 0xE
def stateStoring : Taccess := 0x5
def stateSending : Taccess := 0x6
def stateProcessing : Taccess := 0x7

/-- One pass of the loop of `CAccessOMPLock::wait_for_status`: the new content
of the byte, or nothing when the thread has to sleep and look again. -/
def waitForStatus (what status newStatus : Taccess) : Option Taccess :=
  if what = status then some newStatus else none

/-- `CAccessOMPLock::set_status`; nothing is the code error branch, `exit(99)`. -/
def setStatus (what oldStatus status : Taccess) : Option Taccess :=
  if what ≠ oldStatus then none else some status

@[simp] theorem waitForStatus_self (status newStatus : Taccess) :
    waitForStatus status status newStatus = some newStatus := by
  simp [waitForStatus]

theorem waitForStatus_of_ne {what status newStatus : Taccess} (different : what ≠ status) :
    waitForStatus what status newStatus = none := by
  simp [waitForStatus, different]

@[simp] theorem setStatus_self (oldStatus status : Taccess) :
    setStatus oldStatus oldStatus status = some status := by
  simp [setStatus]

theorem setStatus_of_ne {what oldStatus status : Taccess} (different : what ≠ oldStatus) :
    setStatus what oldStatus status = none := by
  simp [setStatus, different]

end RockAMali
