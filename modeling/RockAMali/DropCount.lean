import Mathlib.Algebra.Order.Ring.Nat
import Mathlib.Data.Nat.ModEq
import RockAMali.UdpReceive

/-!
Which runs the drop counters of `udp_receive.cpp` and its verdict are right for.
The count of a frame is negative when its index is smaller than the one before,
so that losses at a wrap are subtracted and losses can cancel.
-/

namespace RockAMali

theorem narrow32_natCast {value : Nat} (bound : value ≤ 2 ^ 32) :
    narrow32 value = if value < 2 ^ 31 then (value : Int) else value - 2 ^ 32 := by
  rw [narrow32, Int.bmod_def]
  split <;> split <;> omega

def InSequence (first : UInt32) (rest : List UInt32) : Prop :=
  ∀ pair ∈ pairs first rest, pair.2 = pair.1 + 1

def distance (pair : UInt32 × UInt32) : Nat := (increment pair.1 pair.2 - 1).natAbs

/-- The distances below `2^31`, which the counter adds. -/
def added (first : UInt32) (rest : List UInt32) : Nat :=
  ((pairs first rest).map fun pair => if distance pair < 2 ^ 31 then distance pair else 0).sum

/-- What the other distances miss to `2^32`, which the counter subtracts. -/
def subtracted (first : UInt32) (rest : List UInt32) : Nat :=
  ((pairs first rest).map fun pair =>
    if distance pair < 2 ^ 31 then 0 else 2 ^ 32 - distance pair).sum

theorem distance_le (pair : UInt32 × UInt32) : distance pair ≤ 2 ^ 32 := by
  have prev := pair.1.toNat_lt
  have index := pair.2.toNat_lt
  simp only [distance, increment]
  omega

theorem dropped_eq (pair : UInt32 × UInt32) : dropped pair.1 pair.2 =
    ((if distance pair < 2 ^ 31 then distance pair else 0 : Nat) : Int) -
      (if distance pair < 2 ^ 31 then 0 else 2 ^ 32 - distance pair : Nat) := by
  have bound := distance_le pair
  have value : |increment pair.1 pair.2 - 1| = (distance pair : Int) := Int.abs_eq_natAbs _
  rw [dropped, value, narrow32_natCast bound]
  split <;> omega

theorem sum_dropped (first : UInt32) (rest : List UInt32) :
    ((pairs first rest).map fun pair => dropped pair.1 pair.2).sum =
      (added first rest : Int) - subtracted first rest := by
  simp only [added, subtracted]
  induction pairs first rest with
  | nil => rfl
  | cons pair rest ih =>
      rw [List.map_cons, List.map_cons, List.map_cons, List.sum_cons, List.sum_cons, List.sum_cons,
        ih, dropped_eq pair]
      omega

theorem next_iff_distance (pair : UInt32 × UInt32) :
    pair.2 = pair.1 + 1 ↔ distance pair = 0 ∨ distance pair = 2 ^ 32 := by
  have prev := pair.1.toNat_lt
  have index := pair.2.toNat_lt
  rw [← UInt32.toNat_inj, UInt32.toNat_add]
  simp only [distance, increment, UInt32.reduceToNat]
  omega

theorem inSequence_iff (first : UInt32) (rest : List UInt32) :
    InSequence first rest ↔ added first rest = 0 ∧ subtracted first rest = 0 := by
  simp only [InSequence, added, subtracted]
  induction pairs first rest with
  | nil => simp
  | cons pair rest ih =>
      have bound := distance_le pair
      have next := next_iff_distance pair
      rw [List.forall_mem_cons, ih, next, List.map_cons, List.map_cons, List.sum_cons,
        List.sum_cons]
      split <;> omega

theorem testStatus_iff (doNetcdf : Bool) (first : UInt32) (rest : List UInt32) :
    (Receive.initial.run doNetcdf (first :: rest)).testStatus = true ↔
      added first rest ≡ subtracted first rest [MOD 2 ^ 64] := by
  have total := (Receive.run_initial doNetcdf first rest).1
  rw [sum_dropped] at total
  simp only [Receive.testStatus, beq_iff_eq, Nat.ModEq]
  omega

theorem verdict_iff (doNetcdf : Bool) (first : UInt32) (rest : List UInt32) :
    ((Receive.initial.run doNetcdf (first :: rest)).testStatus = true ↔ InSequence first rest) ↔
      (added first rest ≡ subtracted first rest [MOD 2 ^ 64] →
        added first rest = 0 ∧ subtracted first rest = 0) := by
  rw [testStatus_iff, inSequence_iff]
  constructor
  · intro right cancels
    exact right.mp cancels
  · intro condition
    constructor
    · exact condition
    · rintro ⟨none, left⟩
      rw [none, left]

theorem verdict_cancelled :
    ¬((Receive.initial.run false [0, 4294967292, 4294967288]).testStatus = true ↔
      InSequence 0 [4294967292, 4294967288]) := by
  have pass : (Receive.initial.run false [0, 4294967292, 4294967288]).testStatus = true := by
    decide
  have broken : ¬InSequence 0 [4294967292, 4294967288] := by
    intro inSequence
    have next : (4294967292 : UInt32) = 0 + 1 := inSequence (0, 4294967292) List.mem_cons_self
    exact absurd next (by decide)
  exact fun right => broken (right.mp pass)

def Sent (previous frame : Nat) : Prop := previous < frame ∧ frame - previous ≤ 2 ^ 31

def Wraps (pair : Nat × Nat) : Prop := pair.2 % 2 ^ 32 < pair.1 % 2 ^ 32

instance (pair : Nat × Nat) : Decidable (Wraps pair) :=
  inferInstanceAs (Decidable (pair.2 % 2 ^ 32 < pair.1 % 2 ^ 32))

def missing (first : Nat) (rest : List Nat) : Nat :=
  (first :: rest).getLast (List.cons_ne_nil first rest) - first - rest.length

structure Accounted (state : Receive) (first : Nat) (rest : List Nat) : Prop where
  countDrops : state.countDrops = missing first rest
  countDrop : state.countDrop = (pairs first rest).countP fun pair => 1 < pair.2 - pair.1

def lostAtWraps (first : Nat) (rest : List Nat) : Nat :=
  ((pairs first rest).map fun pair => if Wraps pair then pair.2 - pair.1 - 1 else 0).sum

structure WrapsCancel (first : Nat) (rest : List Nat) : Prop where
  total : missing first rest < 2 ^ 64
  lossy : ∀ pair ∈ pairs first rest, Wraps pair → 1 < pair.2 - pair.1
  multiple : 2 ^ 63 ∣ lostAtWraps first rest

theorem sent_of_mem {first : Nat} {rest : List Nat} (sent : (first :: rest).IsChain Sent) :
    ∀ pair ∈ pairs first rest, Sent pair.1 pair.2 := by
  induction rest generalizing first with
  | nil => simp [pairs]
  | cons next rest ih =>
      rw [List.isChain_cons_cons] at sent
      rw [pairs, List.forall_mem_cons]
      exact ⟨sent.1, ih sent.2⟩

theorem missing_eq {first : Nat} {rest : List Nat} (sent : (first :: rest).IsChain Sent) :
    missing first rest = ((pairs first rest).map fun pair => pair.2 - pair.1 - 1).sum := by
  have total : first + rest.length + ((pairs first rest).map fun pair =>
      pair.2 - pair.1 - 1).sum = (first :: rest).getLast (List.cons_ne_nil first rest) := by
    induction rest generalizing first with
    | nil => simp [pairs]
    | cons next rest ih =>
        rw [List.isChain_cons_cons] at sent
        have after := ih sent.2
        have step := sent.1.1
        rw [List.getLast_cons (List.cons_ne_nil next rest), ← after, pairs, List.map_cons,
          List.sum_cons, List.length_cons]
        omega
  rw [missing, ← total]
  omega

theorem increment_ofNat {pair : Nat × Nat} (sent : Sent pair.1 pair.2) :
    increment (UInt32.ofNat pair.1) (UInt32.ofNat pair.2) =
      (pair.2 - pair.1 : Nat) - if Wraps pair then 2 ^ 32 else 0 := by
  obtain ⟨order, gap⟩ := sent
  rw [increment, UInt32.toNat_ofNat', UInt32.toNat_ofNat']
  by_cases wraps : Wraps pair
  · rw [if_pos wraps]
    simp only [Wraps] at wraps
    omega
  · rw [if_neg wraps]
    simp only [Wraps] at wraps
    omega

theorem dropped_ofNat {pair : Nat × Nat} (sent : Sent pair.1 pair.2) :
    dropped (UInt32.ofNat pair.1) (UInt32.ofNat pair.2) = (pair.2 - pair.1 - 1 : Nat) -
      2 * (if Wraps pair then pair.2 - pair.1 - 1 else 0 : Nat) := by
  have value := increment_ofNat sent
  obtain ⟨order, gap⟩ := sent
  rw [dropped, value]
  by_cases wraps : Wraps pair
  · -- across a wrap the narrowed distance is the negated number of lost frames
    have distance : |((pair.2 - pair.1 : Nat) : Int) - 2 ^ 32 - 1| =
        ((2 ^ 32 - (pair.2 - pair.1 - 1) : Nat) : Int) := by
      rw [abs_of_neg (by omega)]
      omega
    rw [if_pos wraps, if_pos wraps, distance, narrow32_natCast (by omega), if_neg (by omega)]
    omega
  · have distance : |((pair.2 - pair.1 : Nat) : Int) - 0 - 1| =
        ((pair.2 - pair.1 - 1 : Nat) : Int) := by
      rw [abs_of_nonneg (by omega)]
      omega
    rw [if_neg wraps, if_neg wraps, distance, narrow32_natCast (by omega), if_pos (by omega)]
    omega

theorem sum_dropped_ofNat {list : List (Nat × Nat)} (sent : ∀ pair ∈ list, Sent pair.1 pair.2) :
    (list.map fun pair => dropped (UInt32.ofNat pair.1) (UInt32.ofNat pair.2)).sum =
      ((list.map fun pair => pair.2 - pair.1 - 1).sum : Nat) -
        2 * ((list.map fun pair => if Wraps pair then pair.2 - pair.1 - 1 else 0).sum : Nat) := by
  induction list with
  | nil => rfl
  | cons pair rest ih =>
      rw [List.forall_mem_cons] at sent
      simp only [List.map_cons, List.sum_cons]
      rw [dropped_ofNat sent.1, ih sent.2]
      omega

theorem increment_ne_one {pair : Nat × Nat} (sent : Sent pair.1 pair.2) :
    increment (UInt32.ofNat pair.1) (UInt32.ofNat pair.2) ≠ 1 ↔
      1 < pair.2 - pair.1 ∨ Wraps pair := by
  have value := increment_ofNat sent
  obtain ⟨order, gap⟩ := sent
  rw [value]
  by_cases wraps : Wraps pair
  · simp only [wraps, if_true, or_true, iff_true]
    omega
  · simp only [wraps, if_false, or_false]
    omega

theorem countP_or_eq {γ : Type*} {counted more : γ → Prop} [DecidablePred counted]
    [DecidablePred more] (list : List γ) :
    list.countP (fun item => counted item ∨ more item) = list.countP (fun item => counted item) ↔
      ∀ item ∈ list, more item → counted item := by
  induction list with
  | nil => simp
  | cons item rest ih =>
      have order : rest.countP (fun item => counted item) ≤
          rest.countP (fun item => counted item ∨ more item) := by
        apply List.countP_mono_left
        intro item _ one
        simp only [decide_eq_true_eq] at one ⊢
        exact Or.inl one
      rw [List.forall_mem_cons, ← ih, List.countP_cons, List.countP_cons]
      by_cases one : counted item
      · simp [one]
      · by_cases other : more item
        · simp only [one, other, or_true, decide_true, decide_false, if_true, Bool.false_eq_true,
            if_false, imp_false, not_true_eq_false, false_and, iff_false]
          omega
        · simp [one, other]

theorem accounted_iff (doNetcdf : Bool) {first : Nat} {rest : List Nat}
    (sent : (first :: rest).IsChain Sent) (loop : rest.length < 2 ^ 64) :
    Accounted (Receive.initial.run doNetcdf ((first :: rest).map UInt32.ofNat)) first rest ↔
      WrapsCancel first rest := by
  obtain ⟨total, number⟩ :=
    Receive.run_initial doNetcdf (UInt32.ofNat first) (rest.map UInt32.ofNat)
  rw [← List.map_cons] at total number
  have sentPairs := sent_of_mem sent
  have lost := missing_eq sent
  rw [pairs_map, List.map_map] at total
  have sum := sum_dropped_ofNat sentPairs
  rw [Function.comp_def, sum, ← lost] at total
  have kinds : (pairs (UInt32.ofNat first) (rest.map UInt32.ofNat)).countP
      (fun pair => increment pair.1 pair.2 ≠ 1) =
        (pairs first rest).countP fun pair => 1 < pair.2 - pair.1 ∨ Wraps pair := by
    rw [pairs_map, List.countP_map]
    apply List.countP_congr
    intro pair member
    simp only [Function.comp_apply, decide_eq_true_eq]
    exact increment_ne_one (sentPairs pair member)
  have few : (pairs first rest).countP (fun pair => 1 < pair.2 - pair.1 ∨ Wraps pair) < 2 ^ 64 := by
    have most := (pairs first rest).countP_le_length
      (p := fun pair => 1 < pair.2 - pair.1 ∨ Wraps pair)
    rw [pairs_length] at most
    omega
  rw [kinds, Nat.mod_eq_of_lt few] at number
  constructor
  · rintro ⟨countDrops, countDrop⟩
    rw [number, countP_or_eq] at countDrop
    refine ⟨?_, countDrop, ?_⟩
    · omega
    · rw [lostAtWraps]
      omega
  · rintro ⟨bound, lossy, multiple⟩
    rw [lostAtWraps] at multiple
    constructor
    · omega
    · rw [number, countP_or_eq]
      exact lossy

theorem wrapsCancel_iff {first : Nat} {rest : List Nat} (sent : (first :: rest).IsChain Sent)
    (short : rest.length ≤ 2 ^ 32) :
    WrapsCancel first rest ↔ ∀ pair ∈ pairs first rest, ¬Wraps pair := by
  have sentPairs := sent_of_mem sent
  have gaps (value : Nat × Nat → Nat) (small : ∀ pair ∈ pairs first rest, value pair < 2 ^ 31) :
      ((pairs first rest).map value).sum < 2 ^ 63 := by
    have most : ((pairs first rest).map value).sum ≤
        ((pairs first rest).map value).length • (2 ^ 31 - 1) := by
      apply List.sum_le_card_nsmul
      intro lost member
      obtain ⟨pair, pairMember, rfl⟩ := List.mem_map.mp member
      have bound := small pair pairMember
      omega
    rw [List.length_map, pairs_length, nsmul_eq_mul, Nat.cast_id] at most
    omega
  constructor
  · rintro ⟨_, lossy, multiple⟩ pair member wraps
    have bound : lostAtWraps first rest < 2 ^ 63 := by
      apply gaps
      intro other otherMember
      have gap := (sentPairs other otherMember).2
      split <;> omega
    have none := Nat.eq_zero_of_dvd_of_lt multiple bound
    have lost : (if Wraps pair then pair.2 - pair.1 - 1 else 0) = 0 :=
      List.sum_eq_zero_iff.mp none _ (List.mem_map_of_mem member)
    rw [if_pos wraps] at lost
    have more := lossy pair member wraps
    omega
  · intro noWrap
    constructor
    · rw [missing_eq sent]
      apply Nat.lt_trans (gaps _ _) (by decide)
      intro pair member
      have gap := (sentPairs pair member).2
      omega
    · intro pair member wraps
      exact (noWrap pair member wraps).elim
    · have none : lostAtWraps first rest = 0 := by
        apply List.sum_eq_zero_iff.mpr
        intro lost member
        obtain ⟨pair, pairMember, rfl⟩ := List.mem_map.mp member
        rw [if_neg (noWrap pair pairMember)]
      rw [none]
      exact Nat.dvd_zero _

/-- The drop counters are right exactly when what is lost at wraps cancels,
which in a run of at most `2^32` frames means that no index wraps. -/
theorem drop_counts_iff (doNetcdf : Bool) (first : Nat) (rest : List Nat)
    (sent : (first :: rest).IsChain Sent) (loop : rest.length < 2 ^ 64) :
    (Accounted (Receive.initial.run doNetcdf ((first :: rest).map UInt32.ofNat)) first rest ↔
      WrapsCancel first rest) ∧
    (rest.length ≤ 2 ^ 32 →
      (WrapsCancel first rest ↔ ∀ pair ∈ pairs first rest, ¬Wraps pair)) := by
  constructor
  · exact accounted_iff doNetcdf sent loop
  · exact wrapsCancel_iff sent

theorem drop_counts_lost_before_wrap :
    (Accounted (Receive.initial.run true [5, 8]) 5 [8] ↔ WrapsCancel 5 [8]) ∧
      (WrapsCancel 5 [8] ↔ ∀ pair ∈ pairs 5 [8], ¬Wraps pair) := by
  have sent : [5, 8].IsChain Sent := by simp [Sent]
  have counts := drop_counts_iff true 5 [8] sent (by decide)
  exact ⟨counts.1, counts.2 (by decide)⟩

theorem drop_counts_lost_at_wrap :
    [4294967295, 4294967297].IsChain Sent ∧
      ¬Accounted (Receive.initial.run true
        ([4294967295, 4294967297].map UInt32.ofNat)) 4294967295 [4294967297] := by
  constructor
  · simp [Sent]
  · rintro ⟨countDrops, _⟩
    revert countDrops
    decide

end RockAMali
