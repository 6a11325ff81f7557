import RockAMali.Delivery

/-!
The rosters of the multi-thread programs. A slot of the images is filled by
thread 0 and then taken by the processing thread of its offset, by the store or
by the sender; in `receive.cpp` with processing the raw store comes last. A slot
of the results is filled by the processing thread of its offset and then stored.
-/

namespace RockAMali

theorem slot_buffer_lt {nbuffer step : Nat} (positive : 0 < nbuffer) :
    Run.buffer.slot nbuffer step < nbuffer := by
  rw [Run.slot_buffer positive]
  exact Nat.mod_lt step positive

theorem getElem?_single {hold found : Hold} {part : Nat} (at_part : [hold][part]? = some found) :
    part = 0 ∧ found = hold := by
  rcases part with _ | part
  · simpa using at_part.symm
  · simp at at_part

theorem getElem?_pair {first second found : Hold} {part : Nat}
    (at_part : [first, second][part]? = some found) :
    part = 0 ∧ found = first ∨ part = 1 ∧ found = second := by
  rcases part with _ | _ | part
  · left
    simpa using at_part.symm
  · right
    simpa using at_part.symm
  · simp at at_part

theorem Duty.processor {ready : Taccess} {thread : Thread}
    {waitStatus setStatus waitStatusR setStatusR : Taccess} {part : Nat} {hold : Hold}
    (holds : thread.iteration =
      DataProcessor.iteration waitStatus setStatus waitStatusR setStatusR)
    (wait : waitStatus = ready) (waitR : waitStatusR = statusFree)
    (found : thread.iteration[part]? = some hold) : Duty ready thread hold part := by
  subst wait waitR
  rw [holds] at found
  rcases getElem?_pair found with ⟨rfl, rfl⟩ | ⟨rfl, rfl⟩
  · exact .kernel rfl rfl rfl holds
  · exact .copy rfl rfl rfl holds rfl

def processRoster (nbuffer count stride : Nat) (positive : 0 < stride)
    (fits : stride ≤ nbuffer) : Roster (process nbuffer count (stride + 2)) where
  cycle _ := [statusFree, statusFilled]
  visitor
    | .images, 0, _ => (0, 0)
    | .images, _, slot => (slot % stride + 2, 0)
    | .results, 0, slot => (slot % stride + 2, 1)
    | .results, _, _ => (1, 0)
  nodup := by rintro (_ | _) <;> decide
  free := by
    intro ring status found
    simpa using found.symm
  stride := by
    rintro (_ | _ | id) bound
    · exact Nat.one_pos
    · exact Nat.one_pos
    · exact positive
  slot := by
    rintro (_ | _ | id) bound step
    · exact slot_buffer_lt (by omega : 0 < nbuffer)
    · exact slot_buffer_lt (by omega : 0 < nbuffer)
    · simp only [process] at bound
      exact (Run.slot_processor (by omega : id < stride) fits step).1
  station := by
    rintro (_ | _ | id) bound part hold found
    · obtain ⟨rfl, rfl⟩ := getElem?_single found
      exact ⟨0, rfl, rfl, by decide, fun _ => rfl⟩
    · obtain ⟨rfl, rfl⟩ := getElem?_single found
      exact ⟨1, rfl, rfl, by decide, fun _ => rfl⟩
    · simp only [process] at bound
      have offset (step : Nat) := (Run.slot_processor (by omega : id < stride) fits step).2
      rcases getElem?_pair found with ⟨rfl, rfl⟩ | ⟨rfl, rfl⟩
      · exact ⟨1, rfl, rfl, by decide, fun step =>
          congrArg (fun start => (start + 2, 0)) (offset step)⟩
      · exact ⟨0, rfl, rfl, by decide, fun step =>
          congrArg (fun start => (start + 2, 1)) (offset step)⟩
  serves := by
    rintro ring stage slot status slotBound found
    have offset := Nat.mod_lt slot positive
    rcases ring with _ | _ <;> rcases stage with _ | _ | stage <;>
      simp only [List.getElem?_cons_zero, List.getElem?_cons_succ, List.getElem?_nil,
        Option.some.injEq, reduceCtorEq] at found <;> subst found
    · exact ⟨Nat.succ_pos _, _, rfl, rfl, rfl⟩
    · exact ⟨by simp only [process]; omega, _, rfl, rfl, rfl⟩
    · exact ⟨by simp only [process]; omega, _, rfl, rfl, rfl⟩
    · exact ⟨by simp only [process]; omega, _, rfl, rfl, rfl⟩

theorem processRoster_dataflow {nbuffer count stride : Nat} (positive : 0 < stride)
    (fits : stride ≤ nbuffer) :
    (processRoster nbuffer count stride positive fits).Dataflow statusFilled := by
  constructor
  · decide
  · rintro (_ | _ | id) bound part hold found
    · obtain ⟨rfl, rfl⟩ := getElem?_single found
      exact .fill rfl rfl rfl rfl
    · obtain ⟨rfl, rfl⟩ := getElem?_single found
      exact .store rfl (by decide) rfl rfl
    · exact .processor rfl rfl rfl found
  · rintro (_ | _ | first) firstBound (_ | _ | second) secondBound hold other holds others same _ <;>
      simp [process, DataGenerator.iteration, DataStore.iteration, DataProcessor.iteration]
        at holds others ⊢ <;> simp [← holds, ← others] at same

def receiveOnlyRoster (nbuffer count : Nat) (positive : 0 < nbuffer) :
    Roster (receive nbuffer count 2) where
  cycle
    | .images => [statusFree, statusReceived]
    | .results => []
  visitor
    | _, 0, _ => (0, 0)
    | _, _, _ => (1, 0)
  nodup := by rintro (_ | _) <;> decide
  free := by
    rintro (_ | _) status found
    · simpa using found.symm
    · simp at found
  stride := by
    rintro (_ | _ | id) bound
    · exact Nat.one_pos
    · exact Nat.one_pos
    · simp only [receive] at bound
      omega
  slot := by
    rintro (_ | _ | id) bound step
    · exact slot_buffer_lt positive
    · exact slot_buffer_lt positive
    · simp only [receive] at bound
      omega
  station := by
    rintro (_ | _ | id) bound part hold found
    · obtain ⟨rfl, rfl⟩ := getElem?_single found
      exact ⟨0, rfl, rfl, by decide, fun _ => rfl⟩
    · obtain ⟨rfl, rfl⟩ := getElem?_single found
      exact ⟨1, rfl, rfl, by decide, fun _ => rfl⟩
    · simp only [receive] at bound
      omega
  serves := by
    rintro (_ | _) (_ | _ | stage) slot status slotBound found <;>
      simp only [List.getElem?_cons_zero, List.getElem?_cons_succ, List.getElem?_nil,
        Option.some.injEq, reduceCtorEq] at found <;> subst found
    · exact ⟨Nat.succ_pos _, _, rfl, rfl, rfl⟩
    · exact ⟨Nat.lt_succ_self _, _, rfl, rfl, rfl⟩

theorem receiveOnlyRoster_dataflow {nbuffer count : Nat} (positive : 0 < nbuffer) :
    (receiveOnlyRoster nbuffer count positive).Dataflow statusReceived := by
  constructor
  · decide
  · rintro (_ | _ | id) bound part hold found
    · obtain ⟨rfl, rfl⟩ := getElem?_single found
      exact .fill rfl rfl rfl rfl
    · obtain ⟨rfl, rfl⟩ := getElem?_single found
      exact .store rfl (by decide) rfl rfl
    · simp only [receive] at bound
      omega
  · rintro (_ | _ | first) firstBound (_ | _ | second) secondBound hold other holds others same _ <;>
      simp only [receive] at firstBound secondBound <;> first | omega | skip
    · simp [receive, DataReceive.iteration, DataStore.iteration] at holds others
      simp [← holds, ← others] at same
    · simp [receive, DataReceive.iteration, DataStore.iteration] at holds others
      simp [← holds, ← others] at same

def receiveRoster (nbuffer count stride : Nat) (positive : 0 < stride)
    (fits : stride ≤ nbuffer) : Roster (receive nbuffer count (stride + 3)) where
  cycle
    | .images => [statusFree, statusReceived, statusProcessed]
    | .results => [statusFree, statusFilled]
  visitor
    | .images, 0, _ => (0, 0)
    | .images, 1, slot => (slot % stride + 3, 0)
    | .images, _, _ => (1, 0)
    | .results, 0, slot => (slot % stride + 3, 1)
    | .results, _, _ => (2, 0)
  nodup := by rintro (_ | _) <;> decide
  free := by
    rintro (_ | _) status found <;> simpa using found.symm
  stride := by
    rintro (_ | _ | _ | id) bound
    · exact Nat.one_pos
    · exact Nat.one_pos
    · exact Nat.one_pos
    · exact positive
  slot := by
    rintro (_ | _ | _ | id) bound step
    · exact slot_buffer_lt (by omega : 0 < nbuffer)
    · exact slot_buffer_lt (by omega : 0 < nbuffer)
    · exact slot_buffer_lt (by omega : 0 < nbuffer)
    · simp only [receive] at bound
      exact (Run.slot_processor (by omega : id < stride) fits step).1
  station := by
    have processing : stride + 3 ≠ 2 := by omega
    rintro (_ | _ | _ | id) bound part hold found
    · obtain ⟨rfl, rfl⟩ := getElem?_single found
      exact ⟨0, rfl, rfl, by decide, fun _ => rfl⟩
    · obtain ⟨rfl, rfl⟩ := getElem?_single found
      refine ⟨2, by simp [processing], by simp, ?_, fun _ => rfl⟩
      show stateStoring ∉ [statusFree, statusReceived, statusProcessed]
      decide
    · obtain ⟨rfl, rfl⟩ := getElem?_single found
      exact ⟨1, rfl, rfl, by decide, fun _ => rfl⟩
    · simp only [receive] at bound
      have offset (step : Nat) := (Run.slot_processor (by omega : id < stride) fits step).2
      rcases getElem?_pair found with ⟨rfl, rfl⟩ | ⟨rfl, rfl⟩
      · exact ⟨1, rfl, rfl, by decide, fun step =>
          congrArg (fun start => (start + 3, 0)) (offset step)⟩
      · exact ⟨0, rfl, rfl, by decide, fun step =>
          congrArg (fun start => (start + 3, 1)) (offset step)⟩
  serves := by
    have processing : stride + 3 ≠ 2 := by omega
    rintro ring stage slot status slotBound found
    have offset := Nat.mod_lt slot positive
    rcases ring with _ | _ <;> rcases stage with _ | _ | _ | stage <;>
      simp only [List.getElem?_cons_zero, List.getElem?_cons_succ, List.getElem?_nil,
        Option.some.injEq, reduceCtorEq] at found <;> subst found
    · exact ⟨Nat.succ_pos _, _, rfl, rfl, rfl⟩
    · exact ⟨by simp only [receive]; omega, _, rfl, rfl, rfl⟩
    · exact ⟨by simp only [receive]; omega, _, rfl, rfl, by simp [processing]⟩
    · exact ⟨by simp only [receive]; omega, _, rfl, rfl, rfl⟩
    · exact ⟨by simp only [receive]; omega, _, rfl, rfl, rfl⟩

theorem receiveRoster_dataflow {nbuffer count stride : Nat} (positive : 0 < stride)
    (fits : stride ≤ nbuffer) :
    (receiveRoster nbuffer count stride positive fits).Dataflow statusReceived := by
  have processing : stride + 3 ≠ 2 := by omega
  constructor
  · decide
  · rintro (_ | _ | _ | id) bound part hold found
    · obtain ⟨rfl, rfl⟩ := getElem?_single found
      exact .fill rfl rfl rfl rfl
    · obtain ⟨rfl, rfl⟩ := getElem?_single found
      exact .store rfl (by rw [if_neg processing]; decide) rfl rfl
    · obtain ⟨rfl, rfl⟩ := getElem?_single found
      exact .store rfl (by decide) rfl rfl
    · exact .processor rfl rfl rfl found
  · rintro (_ | _ | _ | first) firstBound (_ | _ | _ | second) secondBound hold other holds others
      same sameRing <;>
      simp [receive, DataReceive.iteration, DataStore.iteration, DataProcessor.iteration]
        at holds others ⊢ <;> simp [← holds, ← others] at same sameRing

def sendRoster (nbuffer count tn : Nat) (positive : 0 < nbuffer) (enough : 2 ≤ tn) :
    Roster (send nbuffer count tn) where
  cycle
    | .images => [statusFree, statusFilled]
    | .results => []
  visitor
    | _, 0, _ => (0, 0)
    | _, _, _ => (1, 0)
  nodup := by rintro (_ | _) <;> decide
  free := by
    rintro (_ | _) status found
    · simpa using found.symm
    · simp at found
  stride := by
    rintro (_ | _ | id) bound <;> exact Nat.one_pos
  slot := by
    rintro (_ | _ | id) bound step <;> exact slot_buffer_lt positive
  station := by
    rintro (_ | _ | id) bound part hold found
    · obtain ⟨rfl, rfl⟩ := getElem?_single found
      exact ⟨0, rfl, rfl, by decide, fun _ => rfl⟩
    · obtain ⟨rfl, rfl⟩ := getElem?_single found
      exact ⟨1, rfl, rfl, by decide, fun _ => rfl⟩
    · simp [send] at found
  serves := by
    rintro (_ | _) (_ | _ | stage) slot status slotBound found <;>
      simp only [List.getElem?_cons_zero, List.getElem?_cons_succ, List.getElem?_nil,
        Option.some.injEq, reduceCtorEq] at found <;> subst found
    · exact ⟨by simp only [send]; omega, _, rfl, rfl, rfl⟩
    · exact ⟨by simp only [send]; omega, _, rfl, rfl, rfl⟩

theorem sendRoster_dataflow {nbuffer count tn : Nat} (positive : 0 < nbuffer) (enough : 2 ≤ tn) :
    (sendRoster nbuffer count tn positive enough).Dataflow statusFilled := by
  constructor
  · decide
  · rintro (_ | _ | id) bound part hold found
    · obtain ⟨rfl, rfl⟩ := getElem?_single found
      exact .fill rfl rfl rfl rfl
    · obtain ⟨rfl, rfl⟩ := getElem?_single found
      exact .send rfl rfl (by decide) rfl rfl
    · simp [send] at found
  · rintro (_ | _ | first) firstBound (_ | _ | second) secondBound hold other holds others same _ <;>
      simp [send, DataGenerator.iteration, DataSend.iteration] at holds others ⊢ <;>
      simp [← holds, ← others] at same

end RockAMali
