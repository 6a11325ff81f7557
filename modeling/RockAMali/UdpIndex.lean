import RockAMali.CImg

/-!
Where the four bytes of the frame index come from in `udp_receive.cpp`: its
buffer is sized three times, and never compared with the shift nor with the
frames after the first.
-/

namespace RockAMali

inductive Origin
  /-- What the allocation left, or the warm-up. -/
  | memory
  | frame (i offset : Nat)
deriving DecidableEq

namespace UdpIndex

/-- `nBytes=width=4` without a socket, and then `buffer(width)`. -/
def initial (udp : Bool) (width : Nat) : CImg Origin := ⟨if udp then width else 4, fun _ => .memory⟩

/-- The datagram of iteration `i`, cut to the buffer. -/
def recvfrom (i length : Nat) (buffer : CImg Origin) : CImg Origin × Nat :=
  let nBytes := min buffer.width length
  ({ buffer with data := fun address =>
      if address < nBytes then .frame i address else buffer.data address }, nBytes)

def simulate (i : Nat) (buffer : CImg Origin) : Option (CImg Origin) := do
  let buffer ← buffer.write 0 (.frame i 0)
  let buffer ← buffer.write 1 (.frame i 1)
  let buffer ← buffer.write 2 (.frame i 2)
  buffer.write 3 (.frame i 3)

def iteration (udp : Bool) (i length : Nat) (buffer : CImg Origin) : Option (CImg Origin) :=
  if udp then
    let (received, nBytes) := recvfrom i length buffer
    -- the resize does not keep what was received
    some (if i = 0 ∧ nBytes ≠ received.width then ⟨nBytes, fun _ => .memory⟩ else received)
  else simulate i buffer

def OwnIndex (shift i : Nat) (buffer : CImg Origin) : Prop :=
  ∀ b < 4, ∃ offset, buffer.read (shift + b : Nat) = some (.frame i offset)

def EveryIndex (udp : Bool) (shift : Nat) : Nat → CImg Origin → List Nat → Prop
  | _, _, [] => True
  | i, buffer, length :: lengths => ∃ next, iteration udp i length buffer = some next ∧
      OwnIndex shift i next ∧ EveryIndex udp shift (i + 1) next lengths

variable {shift i : Nat} {buffer : CImg Origin} {lengths : List Nat}

def Older (i : Nat) (buffer : CImg Origin) : Prop :=
  ∀ address number offset, buffer.data address = .frame number offset → number < i

theorem Older.recvfrom (older : Older i buffer) (length : Nat) :
    Older (i + 1) (recvfrom i length buffer).1 := by
  intro address number offset same
  simp only [UdpIndex.recvfrom] at same
  split at same
  · cases same
    omega
  · have before := older address number offset same
    omega

theorem ownIndex_recvfrom (older : Older i buffer) (inside : shift + 4 ≤ buffer.width)
    (length : Nat) : OwnIndex shift i (recvfrom i length buffer).1 ↔ shift + 4 ≤ length := by
  constructor
  · intro own
    by_contra short
    obtain ⟨offset, same⟩ := own 3 (by omega)
    rw [CImg.read_of_lt (by simp only [recvfrom]; omega), Option.some_inj] at same
    simp only [recvfrom] at same
    rw [if_neg (by omega)] at same
    exact absurd (older _ _ _ same) (Nat.lt_irrefl i)
  · intro room b bound
    refine ⟨shift + b, ?_⟩
    rw [CImg.read_of_lt (by simp only [recvfrom]; omega), Option.some_inj]
    simp only [recvfrom]
    rw [if_pos (by omega)]

theorem not_ownIndex_of_width (outside : buffer.width < shift + 4) : ¬OwnIndex shift i buffer := by
  intro own
  obtain ⟨offset, same⟩ := own 3 (by omega)
  rw [CImg.read, if_neg (by omega)] at same
  cases same

theorem not_ownIndex_memory (width : Nat) : ¬OwnIndex shift i ⟨width, fun _ => .memory⟩ := by
  intro own
  obtain ⟨offset, same⟩ := own 0 (by omega)
  rw [CImg.read] at same
  split at same <;> cases same

theorem everyIndex_later (older : Older i buffer) (started : 0 < i)
    (inside : shift + 4 ≤ buffer.width) :
    EveryIndex true shift i buffer lengths ↔ ∀ length ∈ lengths, shift + 4 ≤ length := by
  induction lengths generalizing i buffer with
  | nil => simp [EveryIndex]
  | cons length lengths ih =>
      have own := ownIndex_recvfrom older inside length
      have rest := ih (older.recvfrom length) (Nat.succ_pos i) inside
      have kept : iteration true i length buffer = some (UdpIndex.recvfrom i length buffer).1 := by
        simp [iteration, Nat.ne_of_gt started]
      simp only [EveryIndex, kept, Option.some_inj, exists_eq_left', own, rest,
        List.forall_mem_cons]

theorem everyIndex_socket (width first : Nat) (rest : List Nat) :
    EveryIndex true shift 0 (initial true width) (first :: rest) ↔
      width ≤ first ∧ shift + 4 ≤ width ∧ ∀ length ∈ rest, shift + 4 ≤ length := by
  have older : Older 0 (initial true width) := by
    intro address number offset same
    cases same
  by_cases fits : width ≤ first
  · have kept : iteration true 0 first (initial true width) =
        some (recvfrom 0 first (initial true width)).1 := by
      simp [iteration, recvfrom, initial, fits]
    by_cases inside : shift + 4 ≤ width
    · have wide : shift + 4 ≤ (initial true width).width := inside
      have own := (ownIndex_recvfrom older wide first).mpr (Nat.le_trans inside fits)
      have later : EveryIndex true shift 1 _ rest ↔ _ :=
        everyIndex_later (older.recvfrom first) Nat.one_pos wide
      simp only [EveryIndex, kept, Option.some_inj, exists_eq_left', own, later, fits, inside,
        true_and]
    · have outside : ¬OwnIndex shift 0 (recvfrom 0 first (initial true width)).1 := by
        apply not_ownIndex_of_width
        simp only [recvfrom, initial, if_true]
        omega
      simp only [EveryIndex, kept, Option.some_inj, exists_eq_left', outside, inside, false_and,
        and_false]
  · have short : min width first = first := by omega
    have resized : iteration true 0 first (initial true width) =
        some ⟨first, fun _ => .memory⟩ := by
      have smaller : first ≠ width := by omega
      simp [iteration, recvfrom, initial, short, smaller]
    have lost : ¬OwnIndex shift 0 ⟨first, fun _ => .memory⟩ := not_ownIndex_memory first
    simp only [EveryIndex, resized, Option.some_inj, exists_eq_left', lost, fits, false_and]

theorem simulate_spec (four : buffer.width = 4) (i : Nat) :
    ∃ next, simulate i buffer = some next ∧ next.width = 4 ∧
      ∀ address < 4, next.data address = .frame i address := by
  refine ⟨(((buffer.set 0 (.frame i 0)).set 1 (.frame i 1)).set 2 (.frame i 2)).set 3 (.frame i 3),
    ?_, four, ?_⟩
  · simp [simulate, CImg.write, four]
  · intro address bound
    obtain rfl | rfl | rfl | rfl : address = 0 ∨ address = 1 ∨ address = 2 ∨ address = 3 := by omega
    all_goals simp

theorem everyIndex_simulation (four : buffer.width = 4) :
    EveryIndex false shift i buffer lengths ↔ lengths = [] ∨ shift = 0 := by
  induction lengths generalizing i buffer with
  | nil => simp [EveryIndex]
  | cons length lengths ih =>
      obtain ⟨next, ran, width, filled⟩ := simulate_spec four i
      have own : OwnIndex shift i next ↔ shift = 0 := by
        constructor
        · intro own
          by_contra shifted
          exact not_ownIndex_of_width (by omega) own
        · rintro rfl b bound
          refine ⟨b, ?_⟩
          rw [CImg.read_of_lt (by omega), Nat.zero_add, filled b bound]
      have step : iteration false i length buffer = some next := by simpa [iteration] using ran
      simp only [EveryIndex, step, Option.some_inj, exists_eq_left', own, ih width, reduceCtorEq,
        false_or]
      exact and_iff_left_of_imp Or.inr

def Fits (udp : Bool) (width shift : Nat) : List Nat → Prop
  | [] => True
  | first :: rest =>
      if udp then width ≤ first ∧ shift + 4 ≤ width ∧ ∀ length ∈ rest, shift + 4 ≤ length
      else shift = 0

theorem everyIndex_iff (udp : Bool) (width shift : Nat) (lengths : List Nat) :
    EveryIndex udp shift 0 (initial udp width) lengths ↔ Fits udp width shift lengths := by
  cases lengths with
  | nil => simp [EveryIndex, Fits]
  | cons first rest =>
      cases udp with
      | true => exact everyIndex_socket width first rest
      | false => simp [everyIndex_simulation, initial, Fits]

/-- A resize on the first frame, a later frame shorter than the first, and the
simulation with the default shift. -/
theorem everyIndex_fails :
    ¬EveryIndex true 16 0 (initial true 1024) [512] ∧
      ¬EveryIndex true 16 0 (initial true 1024) [1024, 16] ∧
      ¬EveryIndex false 16 0 (initial false 1024) [0] := by
  refine ⟨?_, ?_, ?_⟩
  · rintro ⟨next, ran, own, _⟩
    obtain rfl := Option.some.inj ran
    obtain ⟨offset, same⟩ := own 0 (by decide)
    cases same
  · rintro ⟨first, ran, _, next, later, own, _⟩
    obtain rfl := Option.some.inj ran
    obtain rfl := Option.some.inj later
    obtain ⟨offset, same⟩ := own 0 (by decide)
    cases same
  · rintro ⟨next, ran, own, _⟩
    obtain rfl := Option.some.inj ran
    obtain ⟨offset, same⟩ := own 0 (by decide)
    cases same

end UdpIndex

end RockAMali
