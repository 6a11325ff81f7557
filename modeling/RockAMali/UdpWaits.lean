import RockAMali.CImg
import RockAMali.Library.MachineInt

/-!
The waits between the frames of `udp_send.cpp`: a table for random waits and for
a ramp, and the loop that reads it at the frame number and at an index of its own.
-/

namespace RockAMali

open MachineInt

/-- The options, with whether the build has NetCDF. -/
structure UdpWaits where
  maxIter : Nat
  twait : Int
  dtwait : Int
  dtwSz : Nat
  doRamp : Bool
  rampWidth : Nat
  debug : Bool
  netcdf : Bool
  fits : Fits twait

namespace UdpWaits

def doRndWait (options : UdpWaits) : Bool := options.dtwait != 0

/-- Half of the range, rounded to zero as `int` is. -/
def half (options : UdpWaits) : Int := options.dtwait.tdiv 2

/-- The table before the ramp, where `rand` fills an image from a range. -/
def assigned (rand : UInt32 → UInt32 → Nat → UInt32) (options : UdpWaits) : Option (CImg UInt32) :=
  if options.doRndWait then do
    let least ← int (options.twait - options.half)
    let greatest ← int (options.twait + options.half)
    some ⟨options.dtwSz, rand (UInt32.ofInt least) (UInt32.ofInt greatest)⟩
  else if options.doRamp then do
    let width ← int (options.rampWidth + 1)
    some ⟨width.toNat, fun _ => UInt32.ofInt options.twait⟩
  else some ⟨1, fun _ => UInt32.ofInt options.twait⟩

def initRamp (options : UdpWaits) (twaits : CImg UInt32) : Option (CImg UInt32) :=
  if options.doRamp then
    cimgForInX twaits.width 0 (options.rampWidth - 1) (fun x twaits => do
      let tw ← int (options.twait * (options.rampWidth - x))
      twaits.write x (UInt32.ofInt tw)) twaits
  else some twaits

def scan (twaits : CImg UInt32) (first count : Int) : Option Unit :=
  if 0 < count then
    Loop.upTo first (first + count - 1) (fun x _ => (twaits.read x).map fun _ => ()) ()
  else none

/-- What the attributes and the data of the NetCDF file read of the table. -/
def netcdfReads (options : UdpWaits) (twaits : CImg UInt32) : Option Unit :=
  if options.netcdf then do
    if options.doRndWait then do
      scan twaits 0 twaits.width
      scan twaits 0 twaits.width
      -- the `CImg<int>` that is to share `unsigned int` samples throws
      if options.doRamp then none
    if !options.debug then
      cimgForInX twaits.width 0 twaits.width (fun x _ => (twaits.read x).map fun _ => ()) ()
  else some ()

def debugReads (options : UdpWaits) (twaits : CImg UInt32) (i itw : Nat) : Option Unit :=
  if options.netcdf && options.debug then do
    let _ ← twaits.read itw
    if options.rampWidth < i && options.doRamp && !options.doRndWait then do
      let _ ← twaits.read (twaits.width - 1)
  else some ()

/-- The argument of `usleep`, which is an unsigned `useconds_t`. -/
def wait (options : UdpWaits) (twaits : CImg UInt32) (i itw : Nat) : Option UInt32 :=
  if options.doRamp && decide (i < options.rampWidth) then do
    let tw ← twaits.read i
    -- by way of an `int`
    some tw.toInt32.toUInt32
  else if options.doRndWait then twaits.read itw
  else some (UInt32.ofInt options.twait)

def frame (options : UdpWaits) (twaits : CImg UInt32) (i : Nat) (state : Nat × List UInt32) :
    Option (Nat × List UInt32) := do
  let _ ← int i
  let (itw, waits) := state
  let itw := if itw = twaits.width then 0 else itw
  options.debugReads twaits i itw
  let tw ← options.wait twaits i itw
  some (itw + 1, waits ++ [tw])

def main (rand : UInt32 → UInt32 → Nat → UInt32) (options : UdpWaits) :
    Option (List UInt32) := do
  let twaits ← options.initRamp (← options.assigned rand)
  options.netcdfReads twaits
  let (_, waits) ← Loop.times (options.frame twaits) options.maxIter (0, [])
  some waits

def Documented (options : UdpWaits) (i : Nat) (wait : Int) : Prop :=
  if options.doRamp ∧ i < options.rampWidth then wait = options.twait * (options.rampWidth - i)
  else if options.doRndWait then
    options.twait - options.half ≤ wait ∧ wait ≤ options.twait + options.half
  else wait = options.twait

def Paced (rand : UInt32 → UInt32 → Nat → UInt32) (options : UdpWaits) : Prop :=
  ∃ waits, main rand options = some waits ∧ waits.length = options.maxIter ∧
    ∀ i < options.maxIter, ∃ wait, waits[i]? = some wait ∧ Documented options i wait.toNat

variable {rand : UInt32 → UInt32 → Nat → UInt32} {options : UdpWaits} {twaits : CImg UInt32}

structure Sized (options : UdpWaits) : Prop where
  least : options.doRndWait = true → Fits (options.twait - options.half)
  greatest : options.doRndWait = true → Fits (options.twait + options.half)
  width : options.doRndWait = false → options.doRamp = true → Fits (options.rampWidth + 1)
  ramp : options.doRamp = true → Fits (options.twait * options.rampWidth)

def size (options : UdpWaits) : Nat :=
  if options.doRndWait then options.dtwSz
  else if options.doRamp then options.rampWidth + 1 else 1

def base (rand : UInt32 → UInt32 → Nat → UInt32) (options : UdpWaits) (x : Nat) : UInt32 :=
  if options.doRndWait then
    rand (UInt32.ofInt (options.twait - options.half))
      (UInt32.ofInt (options.twait + options.half)) x
  else UInt32.ofInt options.twait

def entry (rand : UInt32 → UInt32 → Nat → UInt32) (options : UdpWaits) (x : Nat) : UInt32 :=
  if options.doRamp ∧ x < options.rampWidth then
    UInt32.ofInt (options.twait * (options.rampWidth - x))
  else base rand options x

theorem Sized.step (sized : Sized options) (ramp : options.doRamp = true) {x : Nat}
    (inside : x < options.rampWidth) : Fits (options.twait * (options.rampWidth - x)) := by
  obtain ⟨lower, upper⟩ := sized.ramp ramp
  obtain ⟨rest, split⟩ : ∃ rest : Nat, (options.rampWidth : Int) - x = rest :=
    ⟨options.rampWidth - x, by omega⟩
  have order : (rest : Int) ≤ options.rampWidth := by omega
  rw [split]
  constructor
  · by_cases sign : 0 ≤ options.twait
    · have := Int.mul_nonneg sign (Int.natCast_nonneg rest)
      omega
    · have := Int.mul_le_mul_of_nonpos_left (by omega : options.twait ≤ 0) order
      omega
  · by_cases sign : 0 ≤ options.twait
    · have := Int.mul_le_mul_of_nonneg_left order sign
      omega
    · have := Int.mul_nonpos_of_nonpos_of_nonneg (by omega : options.twait ≤ 0)
        (Int.natCast_nonneg rest)
      omega

theorem assigned_spec (sized : Sized options) :
    options.assigned rand = some ⟨options.size, base rand options⟩ := by
  rw [assigned]
  cases rnd : options.doRndWait with
  | true =>
      rw [if_pos rfl, int_of_fits (sized.least rnd), int_of_fits (sized.greatest rnd)]
      simp [size, base, funext_iff, rnd]
  | false =>
      cases ramp : options.doRamp with
      | true =>
          rw [if_neg (by decide), if_pos rfl, int_of_fits (sized.width rnd ramp)]
          simp [size, base, funext_iff, rnd, ramp]
      | false => simp [size, base, funext_iff, rnd, ramp]

theorem twaits_spec (rand : UInt32 → UInt32 → Nat → UInt32) (sized : Sized options) :
    ∃ twaits, (options.assigned rand).bind options.initRamp = some twaits ∧
      twaits.width = options.size ∧ ∀ x < options.size, twaits.data x = entry rand options x := by
  rw [assigned_spec sized, Option.bind_some, initRamp]
  cases ramp : options.doRamp with
  | false =>
      refine ⟨_, rfl, rfl, ?_⟩
      intro x _
      simp [entry, ramp]
  | true =>
      rw [if_pos rfl]
      obtain ⟨last, ran, width, values⟩ : ∃ last, cimgForInX options.size 0 (options.rampWidth - 1)
          (fun x (twaits : CImg UInt32) => do
            let tw ← int (options.twait * (options.rampWidth - x))
            twaits.write x (UInt32.ofInt tw)) ⟨options.size, base rand options⟩ = some last ∧
          last.width = options.size ∧ ∀ x < options.size, last.data x =
            if (0 : Int) ≤ x ∧ x ≤ (options.rampWidth : Int) - 1 then
              UInt32.ofInt (options.twait * (options.rampWidth - x))
            else base rand options x := by
        apply cimgForInX_fill_int ⟨options.size, base rand options⟩ id (fun _ _ => True)
          (fun x => UInt32.ofInt (options.twait * (options.rampWidth - x))) 0
          (options.rampWidth - 1) trivial
        intro x current _ upper inside _
        refine ⟨_, ?_, trivial, rfl⟩
        rw [int_of_fits (sized.step ramp (by omega))]
        exact CImg.write_of_lt inside _
      refine ⟨last, ran, width, ?_⟩
      intro x inside
      rw [values x inside, entry]
      congr 1
      apply propext
      constructor
      · rintro ⟨_, last⟩
        exact ⟨ramp, by omega⟩
      · rintro ⟨_, early⟩
        omega

theorem sized_of_twaits (ramped : 1 ≤ options.rampWidth) (table : 1 ≤ options.dtwSz)
    (computed : (options.assigned rand).bind options.initRamp = some twaits) : Sized options := by
  obtain ⟨before, assigned, computed⟩ := Option.bind_eq_some_iff.mp computed
  have first (wide : 0 < before.width) (ramp : options.doRamp = true) :
      Fits (options.twait * options.rampWidth) := by
    rw [initRamp, if_pos ramp] at computed
    have order : (0 : Int) ≤ if (options.rampWidth : Int) - 1 < before.width
        then (options.rampWidth : Int) - 1 else before.width - 1 := by
      split <;> omega
    obtain ⟨next, taken⟩ := Loop.upTo_first order computed
    obtain ⟨tw, fits, _⟩ := Option.bind_eq_some_iff.mp taken
    simpa using (int_eq_some.mp fits).1
  rw [UdpWaits.assigned] at assigned
  split at assigned
  · rename_i rnd
    obtain ⟨least, low, assigned⟩ := Option.bind_eq_some_iff.mp assigned
    obtain ⟨greatest, high, assigned⟩ := Option.bind_eq_some_iff.mp assigned
    cases assigned
    exact {
      least := fun _ => (int_eq_some.mp low).1
      greatest := fun _ => (int_eq_some.mp high).1
      width := by simp [rnd]
      ramp := first table }
  · rename_i rnd
    split at assigned
    · obtain ⟨width, wide, assigned⟩ := Option.bind_eq_some_iff.mp assigned
      cases assigned
      obtain ⟨fits, rfl⟩ := int_eq_some.mp wide
      exact {
        least := by simp [rnd]
        greatest := by simp [rnd]
        width := fun _ _ => fits
        ramp := first (by simp only; omega) }
    · rename_i ramp
      exact {
        least := by simp [rnd]
        greatest := by simp [rnd]
        width := by simp [ramp]
        ramp := by simp [ramp] }

theorem scan_eq_some {first count : Int} (lower : 0 ≤ first)
    (upper : first + count ≤ twaits.width) : scan twaits first count = some () ↔ 0 < count := by
  rw [scan]
  split
  · rename_i some_sample
    refine iff_of_true ?_ some_sample
    obtain ⟨_, ran, _⟩ : ∃ final, Loop.upTo first (first + count - 1)
        (fun x _ => (twaits.read x).map fun _ => ()) () = some final ∧ True := by
      apply Loop.upTo_rule fun _ _ => True
      · omega
      · trivial
      · intro x _ _ _ _
        obtain ⟨n, rfl⟩ := Int.eq_ofNat_of_zero_le (by omega : 0 ≤ x)
        refine ⟨(), ?_, trivial⟩
        rw [CImg.read_of_lt (by omega)]
        rfl
    exact ran
  · simp [*]

theorem netcdfReads_eq_some (wide : 0 < twaits.width) :
    options.netcdfReads twaits = some () ↔
      (options.netcdf = true → options.doRndWait = true → options.doRamp = false) := by
  have whole : scan twaits 0 twaits.width = some () := by
    rw [scan_eq_some (Int.le_refl 0) (by omega)]
    omega
  obtain ⟨_, every⟩ : ∃ final, cimgForInX twaits.width 0 twaits.width
      (fun x _ => (twaits.read x).map fun _ => ()) () = some final := by
    apply cimgForInX_runs
    intro x lower upper _
    obtain ⟨n, rfl⟩ := Int.eq_ofNat_of_zero_le lower
    rw [CImg.read_of_lt (by omega)]
    exact ⟨(), rfl⟩
  cases file : options.netcdf with
  | false => simp [netcdfReads, file]
  | true =>
      cases rnd : options.doRndWait with
      | false => simp [netcdfReads, file, rnd, every]
      | true =>
          cases ramp : options.doRamp with
          | false => simp [netcdfReads, file, rnd, ramp, whole, every]
          | true => simp [netcdfReads, file, rnd, ramp, whole]

def index (size : Nat) : Nat → Nat
  | 0 => 0
  | i + 1 => i % size + 1

theorem index_succ (size i : Nat) : index size (i + 1) = i % size + 1 := rfl

theorem index_wrapped {size : Nat} (positive : 0 < size) (i : Nat) :
    (if index size i = size then 0 else index size i) = i % size := by
  cases i with
  | zero =>
      rw [index, if_neg (by omega), Nat.zero_mod]
  | succ i =>
      have bound := Nat.mod_lt i positive
      have step : (i + 1) % size = (i % size + 1) % size := (Nat.mod_add_mod i size 1).symm
      rw [index_succ, step]
      by_cases last : i % size + 1 = size
      · rw [if_pos last, last, Nat.mod_self]
      · rw [if_neg last, Nat.mod_eq_of_lt (by omega : i % size + 1 < size)]

theorem debugReads_runs {i itw : Nat} (inside : itw < twaits.width) :
    options.debugReads twaits i itw = some () := by
  have last : twaits.read (twaits.width - 1) = some (twaits.data (twaits.width - 1)) := by
    have place : ((twaits.width - 1 : Nat) : Int) = (twaits.width : Int) - 1 := by omega
    rw [← place]
    exact CImg.read_of_lt (by omega)
  rw [debugReads, CImg.read_of_lt inside]
  split
  · simp only [Option.bind_eq_bind, Option.bind_some, last]
    split <;> rfl
  · rfl

theorem frame_eq (wide : 0 < twaits.width) (i : Nat) (waits : List UInt32) :
    options.frame twaits i (index twaits.width i, waits) = (int i).bind fun _ =>
      (options.wait twaits i (i % twaits.width)).map fun tw =>
        (index twaits.width (i + 1), waits ++ [tw]) := by
  have inside : i % twaits.width < twaits.width := Nat.mod_lt i wide
  simp only [frame, index_wrapped wide, debugReads_runs inside, Option.bind_eq_bind,
    Option.bind_some, Option.map_eq_bind, Function.comp_def, index_succ]

theorem frames_iff (wide : 0 < twaits.width) {count itw : Nat} {waits : List UInt32} :
    Loop.times (options.frame twaits) count (0, []) = some (itw, waits) ↔
      itw = index twaits.width count ∧ waits.length = count ∧ ∀ i < count, Fits i ∧
        options.wait twaits i (i % twaits.width) = waits[i]? := by
  induction count generalizing itw waits with
  | zero =>
      rw [Loop.times]
      constructor
      · intro ran
        cases ran
        exact ⟨rfl, rfl, fun i none => by omega⟩
      · rintro ⟨rfl, empty, _⟩
        rw [List.eq_nil_of_length_eq_zero empty]
        rfl
  | succ count ih =>
      constructor
      · intro ran
        obtain ⟨⟨before, past⟩, ranBefore, taken⟩ := Option.bind_eq_some_iff.mp ran
        obtain ⟨rfl, length, each⟩ := ih.mp ranBefore
        rw [frame_eq wide] at taken
        obtain ⟨number, counted, taken⟩ := Option.bind_eq_some_iff.mp taken
        obtain ⟨tw, waited, same⟩ := Option.map_eq_some_iff.mp taken
        cases same
        refine ⟨rfl, by simp [length], ?_⟩
        intro i bound
        by_cases last : i = count
        · rw [last, ← length, List.getElem?_concat_length, length]
          exact ⟨(int_eq_some.mp counted).1, waited⟩
        · rw [List.getElem?_append_left (by omega)]
          exact each i (by omega)
      · rintro ⟨rfl, length, each⟩
        have nonempty : waits ≠ [] := List.ne_nil_of_length_eq_add_one length
        obtain ⟨past, tw, rfl⟩ : ∃ past tw, waits = past ++ [tw] :=
          ⟨_, _, (List.dropLast_concat_getLast nonempty).symm⟩
        have pastLength : past.length = count := by simpa using length
        have ranBefore : Loop.times (options.frame twaits) count (0, []) =
            some (index twaits.width count, past) := by
          refine ih.mpr ⟨rfl, pastLength, ?_⟩
          intro i bound
          have own := each i (by omega)
          rwa [List.getElem?_append_left (by omega)] at own
        obtain ⟨fits, waited⟩ := each count (by omega)
        rw [← pastLength, List.getElem?_concat_length, pastLength] at waited
        rw [Loop.times, ranBefore, Option.bind_some, frame_eq wide, int_of_fits fits, waited]
        rfl

def waitAt (rand : UInt32 → UInt32 → Nat → UInt32) (options : UdpWaits) (i : Nat) :
    Option UInt32 :=
  if options.doRamp ∧ i < options.rampWidth then
    if i < options.size then some (UInt32.ofInt (options.twait * (options.rampWidth - i))) else none
  else if options.doRndWait then some (entry rand options (i % options.size))
  else some (UInt32.ofInt options.twait)

theorem wait_eq (positive : 0 < options.size)
    (width : twaits.width = options.size)
    (values : ∀ x < options.size, twaits.data x = entry rand options x) (i : Nat) :
    options.wait twaits i (i % twaits.width) = waitAt rand options i := by
  have inside := Nat.mod_lt i positive
  rw [wait, waitAt, width]
  by_cases ramp : options.doRamp = true ∧ i < options.rampWidth
  · rw [if_pos (by simpa using ramp), if_pos ramp]
    by_cases within : i < options.size
    · rw [if_pos within, CImg.read_of_lt (width ▸ within), values i within, entry, if_pos ramp,
        Option.bind_eq_bind, Option.bind_some, UInt32.toUInt32_toInt32]
    · have outside : twaits.read i = none := by
        rw [CImg.read, if_neg (by omega)]
      rw [if_neg within, outside]
      rfl
  · rw [if_neg (by simpa using ramp), if_neg ramp]
    split
    · rw [CImg.read_of_lt (width ▸ inside), values _ inside]
    · rfl

theorem size_pos (table : 1 ≤ options.dtwSz) : 0 < options.size := by
  rw [size]
  split
  · exact table
  · split <;> omega

theorem paced_iff_each (ramped : 1 ≤ options.rampWidth) (table : 1 ≤ options.dtwSz) :
    Paced rand options ↔ Sized options ∧ options.maxIter ≤ 2 ^ 31 ∧
      (options.netcdf = true → options.doRndWait = true → options.doRamp = false) ∧
      ∀ i < options.maxIter, ∃ wait, waitAt rand options i = some wait ∧
        Documented options i wait.toNat := by
  have positive := size_pos table
  constructor
  · rintro ⟨waits, ran, length, each⟩
    obtain ⟨before, assigned, ran⟩ := Option.bind_eq_some_iff.mp ran
    obtain ⟨twaits, ramp, ran⟩ := Option.bind_eq_some_iff.mp ran
    obtain ⟨_, file, ran⟩ := Option.bind_eq_some_iff.mp ran
    obtain ⟨⟨itw, _⟩, looped, same⟩ := Option.bind_eq_some_iff.mp ran
    cases same
    have filled : (options.assigned rand).bind options.initRamp = some twaits := by
      rw [assigned, Option.bind_some, ramp]
    have sized := sized_of_twaits ramped table filled
    obtain ⟨twaits', filled', width, values⟩ := twaits_spec rand sized
    obtain rfl : twaits = twaits' := Option.some_inj.mp (filled.symm.trans filled')
    have wide : 0 < twaits.width := by omega
    obtain ⟨_, _, counted⟩ := (frames_iff wide).mp looped
    rw [netcdfReads_eq_some wide] at file
    refine ⟨sized, ?_, file, ?_⟩
    · by_contra past
      have last := (counted (2 ^ 31) (by omega)).1.2
      omega
    · intro i bound
      obtain ⟨tw, stored, documented⟩ := each i bound
      refine ⟨tw, ?_, documented⟩
      rw [← wait_eq positive width values, (counted i bound).2, stored]
  · rintro ⟨sized, frames, file, each⟩
    obtain ⟨twaits, filled, width, values⟩ := twaits_spec rand sized
    obtain ⟨before, assigned, ramp⟩ := Option.bind_eq_some_iff.mp filled
    have wide : 0 < twaits.width := by omega
    have reads := (netcdfReads_eq_some wide).mpr file
    obtain ⟨waits, length, stored⟩ : ∃ waits : List UInt32, waits.length = options.maxIter ∧
        ∀ i < options.maxIter, waits[i]? = waitAt rand options i := by
      refine ⟨(List.range options.maxIter).map fun i => (waitAt rand options i).getD 0, by simp, ?_⟩
      intro i bound
      obtain ⟨tw, waited, _⟩ := each i bound
      simp [bound, waited]
    have looped := (frames_iff wide).mpr ⟨rfl, length, fun i bound =>
      ⟨⟨by omega, by omega⟩, (wait_eq positive width values i).trans (stored i bound).symm⟩⟩
    refine ⟨waits, ?_, length, ?_⟩
    · simp only [main, assigned, ramp, reads, looped, Option.bind_eq_bind, Option.bind_some]
    · intro i bound
      rw [stored i bound]
      exact each i bound

structure Random (rand : UInt32 → UInt32 → Nat → UInt32) : Prop where
  least : ∀ least greatest x, least ≤ greatest → least ≤ rand least greatest x
  greatest : ∀ least greatest x, least ≤ greatest → rand least greatest x ≤ greatest

structure Compatible (options : UdpWaits) : Prop where
  sized : Sized options
  frames : options.maxIter ≤ 2 ^ 31
  sign : options.doRamp = true ∨ options.doRndWait = false → 0 < options.maxIter →
    0 ≤ options.twait
  file : options.netcdf = true → options.doRndWait = true → options.doRamp = false
  ramp : options.doRndWait = true → options.doRamp = true →
    options.rampWidth ≤ options.dtwSz ∨ options.maxIter ≤ options.dtwSz
  range : options.doRndWait = true →
    (if options.doRamp then options.rampWidth else 0) < options.maxIter → 0 ≤ options.half
  wrap : options.doRndWait = true → options.doRamp = true →
    options.rampWidth < options.maxIter → options.dtwSz < options.maxIter →
      options.twait * (options.rampWidth - 1) ≤ options.half

theorem size_of_rnd (rnd : options.doRndWait = true) : options.size = options.dtwSz := by
  rw [size, if_pos rnd]

theorem base_bounds (random : Random rand) (sized : Sized options)
    (rnd : options.doRndWait = true) (mean : options.half ≤ options.twait)
    (range : 0 ≤ options.half) (x : Nat) :
    options.twait - options.half ≤ (base rand options x).toNat ∧
      ((base rand options x).toNat : Int) ≤ options.twait + options.half := by
  obtain ⟨_, lowUpper⟩ := sized.least rnd
  obtain ⟨_, highUpper⟩ := sized.greatest rnd
  have low := toNat_ofInt_of_lt (by omega : 0 ≤ options.twait - options.half) (by omega)
  have high := toNat_ofInt_of_lt (by omega : 0 ≤ options.twait + options.half) (by omega)
  have order : UInt32.ofInt (options.twait - options.half) ≤
      UInt32.ofInt (options.twait + options.half) := by
    rw [UInt32.le_iff_toNat_le]
    omega
  have least := UInt32.le_iff_toNat_le.mp (random.least _ _ x order)
  have greatest := UInt32.le_iff_toNat_le.mp (random.greatest _ _ x order)
  rw [base, if_pos rnd]
  omega

theorem step_bounds (positive : 0 ≤ options.twait) {x : Nat} (inside : x < options.rampWidth) :
    options.twait ≤ options.twait * (options.rampWidth - x) ∧
      options.twait * (options.rampWidth - x) ≤
        options.twait * (options.rampWidth - 1) + options.twait := by
  have least := Int.mul_le_mul_of_nonneg_left (by omega : (1 : Int) ≤ options.rampWidth - x) positive
  have greatest := Int.mul_le_mul_of_nonneg_left
    (by omega : (options.rampWidth : Int) - x ≤ options.rampWidth - 1 + 1) positive
  rw [Int.mul_one] at least
  rw [Int.mul_add, Int.mul_one] at greatest
  exact ⟨least, greatest⟩

theorem entry_step (sized : Sized options) (positive : 0 ≤ options.twait)
    (ramp : options.doRamp = true) {x : Nat} (inside : x < options.rampWidth) :
    ((entry rand options x).toNat : Int) = options.twait * (options.rampWidth - x) := by
  have bounds := step_bounds positive inside
  have fits := (sized.step ramp inside).2
  rw [entry, if_pos ⟨ramp, inside⟩]
  exact toNat_ofInt_of_lt (by omega) (by omega)

theorem Compatible.ramp_inside (compatible : Compatible options) (ramp : options.doRamp = true)
    {i : Nat} (early : i < options.rampWidth) (bound : i < options.maxIter) : i < options.size := by
  rw [size]
  cases rnd : options.doRndWait with
  | true =>
      rw [if_pos rfl]
      rcases compatible.ramp rnd ramp with longer | shorter
      · omega
      · omega
  | false =>
      rw [if_neg (by decide), if_pos ramp]
      omega

theorem Compatible.entry_bounds (compatible : Compatible options) (random : Random rand)
    (rnd : options.doRndWait = true) (mean : options.half ≤ options.twait) {i : Nat}
    (bound : i < options.maxIter) (late : options.doRamp = true → options.rampWidth ≤ i) :
    options.twait - options.half ≤ (entry rand options (i % options.dtwSz)).toNat ∧
      ((entry rand options (i % options.dtwSz)).toNat : Int) ≤ options.twait + options.half := by
  have started : (if options.doRamp then options.rampWidth else 0) < options.maxIter := by
    split
    · exact Nat.lt_of_le_of_lt (late ‹_›) bound
    · omega
  have spread := compatible.range rnd started
  by_cases step : options.doRamp = true ∧ i % options.dtwSz < options.rampWidth
  · obtain ⟨ramped, early⟩ := step
    have past := late ramped
    -- the table has wrapped, as its first entries that are not random are the ramp
    have wrapped : options.dtwSz ≤ i := by
      by_contra first
      rw [Nat.mod_eq_of_lt (by omega)] at early
      omega
    have bounds := step_bounds (by omega : 0 ≤ options.twait) early
    have small := compatible.wrap rnd ramped (by omega) (by omega)
    rw [entry_step compatible.sized (by omega) ramped early]
    omega
  · rw [entry, if_neg step]
    exact base_bounds random compatible.sized rnd mean spread _

theorem documented_of_compatible (random : Random rand) (compatible : Compatible options)
    (mean : options.doRndWait = true → options.half ≤ options.twait) {i : Nat}
    (bound : i < options.maxIter) :
    ∃ wait, waitAt rand options i = some wait ∧ Documented options i wait.toNat := by
  simp only [waitAt, Documented]
  by_cases ramp : options.doRamp = true ∧ i < options.rampWidth
  · have inside := compatible.ramp_inside ramp.1 ramp.2 bound
    have positive := compatible.sign (Or.inl ramp.1) (by omega)
    have bounds := step_bounds positive ramp.2
    have fits := (compatible.sized.step ramp.1 ramp.2).2
    rw [if_pos ramp, if_pos inside]
    exact ⟨_, rfl, by rw [if_pos ramp, toNat_ofInt_of_lt (by omega) (by omega)]⟩
  · rw [if_neg ramp]
    cases rnd : options.doRndWait with
    | false =>
        have positive := compatible.sign (Or.inr rnd) (by omega)
        have fits := options.fits.2
        refine ⟨_, rfl, ?_⟩
        rw [if_neg ramp, if_neg (by decide)]
        exact toNat_ofInt_of_lt positive (by omega)
    | true =>
        have late (ramped : options.doRamp = true) : options.rampWidth ≤ i := by
          by_contra early
          exact ramp ⟨ramped, by omega⟩
        refine ⟨_, rfl, ?_⟩
        rw [if_neg ramp, if_pos rfl, size_of_rnd rnd]
        exact compatible.entry_bounds random rnd (mean rnd) bound late

section Each

variable (each : ∀ i < options.maxIter, ∃ wait, waitAt rand options i = some wait ∧
  Documented options i wait.toNat)

include each

theorem sign_of_each (ramped : 1 ≤ options.rampWidth)
    (signed : options.doRamp = true ∨ options.doRndWait = false) (started : 0 < options.maxIter) :
    0 ≤ options.twait := by
  obtain ⟨tw, _, documented⟩ := each 0 started
  by_cases ramp : options.doRamp = true ∧ 0 < options.rampWidth
  · rw [Documented, if_pos ramp, Int.natCast_zero, Int.sub_zero] at documented
    by_contra negative
    have product := Int.mul_neg_of_neg_of_pos (Int.not_le.mp negative)
      (by omega : (0 : Int) < options.rampWidth)
    omega
  · have constant : options.doRndWait = false := signed.resolve_left fun on => ramp ⟨on, ramped⟩
    rw [Documented, if_neg ramp, if_neg (by simp [constant])] at documented
    omega

theorem ramp_of_each (rnd : options.doRndWait = true) (ramp : options.doRamp = true) :
    options.rampWidth ≤ options.dtwSz ∨ options.maxIter ≤ options.dtwSz := by
  by_contra outside
  obtain ⟨tw, waited, _⟩ := each options.dtwSz (by omega)
  rw [waitAt, if_pos ⟨ramp, by omega⟩, size_of_rnd rnd, if_neg (by omega)] at waited
  cases waited

theorem range_of_each (rnd : options.doRndWait = true)
    (later : (if options.doRamp then options.rampWidth else 0) < options.maxIter) :
    0 ≤ options.half := by
  obtain ⟨tw, _, documented⟩ := each _ later
  have past : ¬(options.doRamp = true ∧
      (if options.doRamp then options.rampWidth else 0) < options.rampWidth) := by
    rintro ⟨ramp, early⟩
    rw [if_pos ramp] at early
    omega
  rw [Documented, if_neg past, if_pos rnd] at documented
  omega

theorem wrap_of_each (sized : Sized options) (ramped : 1 ≤ options.rampWidth)
    (rnd : options.doRndWait = true) (mean : options.half ≤ options.twait)
    (ramp : options.doRamp = true) (later : options.rampWidth < options.maxIter)
    (wrapped : options.dtwSz < options.maxIter) :
    options.twait * (options.rampWidth - 1) ≤ options.half := by
  have spread := range_of_each each rnd (by rwa [if_pos ramp])
  have inside := ramp_of_each each rnd ramp
  obtain ⟨tw, waited, documented⟩ := each options.dtwSz wrapped
  have past : ¬(options.doRamp = true ∧ options.dtwSz < options.rampWidth) := by omega
  rw [waitAt, if_neg past, if_pos rnd, size_of_rnd rnd, Nat.mod_self, Option.some_inj] at waited
  rw [Documented, if_neg past, if_pos rnd, ← waited,
    entry_step sized (by omega) ramp (by omega), Int.natCast_zero, Int.sub_zero] at documented
  rw [Int.mul_sub, Int.mul_one]
  omega

end Each

theorem compatible_of_paced (ramped : 1 ≤ options.rampWidth) (table : 1 ≤ options.dtwSz)
    (mean : options.doRndWait = true → options.half ≤ options.twait)
    (paced : Paced rand options) : Compatible options := by
  obtain ⟨sized, frames, file, each⟩ := (paced_iff_each ramped table).mp paced
  exact {
    sized := sized
    frames := frames
    sign := sign_of_each each ramped
    file := file
    ramp := ramp_of_each each
    range := range_of_each each
    wrap := fun rnd => wrap_of_each each sized ramped rnd (mean rnd) }

end UdpWaits

end RockAMali
