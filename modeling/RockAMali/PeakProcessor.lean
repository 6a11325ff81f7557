import Mathlib.Data.Rat.Floor
import RockAMali.DataFilter

/-!
`CDataProcessor_Max_Min` of `CDataProcessor_energy.hpp`: the minimum and the
maximum of a frame of unsigned samples, and three searches without a bound of
their own.
-/

namespace RockAMali

namespace CImg

variable {α : Type*} [LinearOrder α]

def min (image : CImg α) : Option α := ((List.range image.width).map image.data).min?

def max (image : CImg α) : Option α := ((List.range image.width).map image.data).max?

variable {image : CImg α} {x : Nat}

theorem min_eq (inside : x < image.width) (least : ∀ n < image.width, image.data x ≤ image.data n) :
    image.min = some (image.data x) := by
  rw [min, List.min?_eq_some_iff]
  constructor
  · exact List.mem_map_of_mem (List.mem_range.mpr inside)
  · intro sample member
    obtain ⟨n, bound, rfl⟩ := List.mem_map.mp member
    exact least n (List.mem_range.mp bound)

theorem max_eq (inside : x < image.width) (greatest : ∀ n < image.width, image.data n ≤ image.data x) :
    image.max = some (image.data x) := by
  rw [max, List.max?_eq_some_iff]
  constructor
  · exact List.mem_map_of_mem (List.mem_range.mpr inside)
  · intro sample member
    obtain ⟨n, bound, rfl⟩ := List.mem_map.mp member
    exact greatest n (List.mem_range.mp bound)

theorem min_spec {least : α} (found : image.min = some least) :
    (∃ x < image.width, image.data x = least) ∧ ∀ n < image.width, least ≤ image.data n := by
  rw [min, List.min?_eq_some_iff] at found
  obtain ⟨member, below⟩ := found
  obtain ⟨x, inside, same⟩ := List.mem_map.mp member
  refine ⟨⟨x, List.mem_range.mp inside, same⟩, ?_⟩
  intro n bound
  exact below _ (List.mem_map_of_mem (List.mem_range.mpr bound))

theorem max_spec {greatest : α} (found : image.max = some greatest) :
    (∃ x < image.width, image.data x = greatest) ∧ ∀ n < image.width, image.data n ≤ greatest := by
  rw [max, List.max?_eq_some_iff] at found
  obtain ⟨member, above⟩ := found
  obtain ⟨x, inside, same⟩ := List.mem_map.mp member
  refine ⟨⟨x, List.mem_range.mp inside, same⟩, ?_⟩
  intro n bound
  exact above _ (List.mem_map_of_mem (List.mem_range.mpr bound))

end CImg

section Search

variable {α : Type*}

/-- `for(int i=first;test(in(i));i++) found=pass(i);`, which reads past the end
of a frame without a sample that stops it. -/
def searchFrom (in_ : CImg α) (test : α → Bool) (pass : Int → Int) : Nat → Int → Int → Option Int
  | 0, _, _ => none
  | passes + 1, i, found =>
      (in_.read i).bind fun sample =>
        if test sample then searchFrom in_ test pass passes (i + 1) (pass i) else some found

def search (in_ : CImg α) (test : α → Bool) (pass : Int → Int) (first found : Int) : Option Int :=
  searchFrom in_ test pass (in_.width + 1) first found

structure Stops (in_ : CImg α) (test : α → Bool) (first stop : Nat) : Prop where
  inside : stop < in_.width
  order : first ≤ stop
  passes : ∀ n, first ≤ n → n < stop → test (in_.data n) = true
  stopped : test (in_.data stop) = false

variable {in_ : CImg α} {test : α → Bool} {pass : Int → Int} {first stop : Nat} {found : Int}

theorem searchFrom_stops {passes : Nat} (stops : Stops in_ test first stop)
    (enough : stop < first + passes) :
    searchFrom in_ test pass passes first found =
      some (if first = stop then found else pass (stop - 1 : Nat)) := by
  induction passes generalizing first found with
  | zero =>
      have order := stops.order
      omega
  | succ passes ih =>
      have ⟨inside, order, passing, stopped⟩ := stops
      rw [searchFrom, CImg.read_of_lt (by omega), Option.bind_some]
      by_cases here : first = stop
      · rw [if_pos here, here, stopped]
        rfl
      · have later : Stops in_ test (first + 1) stop :=
          ⟨inside, by omega, fun n lower => passing n (by omega), stopped⟩
        have rest : searchFrom in_ test pass passes (first + 1 : Nat) (pass first) = _ :=
          ih later (by omega)
        rw [if_neg here, passing first (Nat.le_refl first) (by omega), if_pos rfl]
        rw [Nat.cast_succ] at rest
        rw [rest]
        split
        · rename_i last
          rw [← last, Nat.add_sub_cancel]
        · rfl

theorem search_stops (stops : Stops in_ test first stop) :
    search in_ test pass first found =
      some (if first = stop then found else pass (stop - 1 : Nat)) := by
  have inside := stops.inside
  exact searchFrom_stops stops (by omega)

theorem searchFrom_some {passes : Nat} {result : Int}
    (ended : searchFrom in_ test pass passes first found = some result) :
    ∃ stop, Stops in_ test first stop := by
  induction passes generalizing first found with
  | zero => cases ended
  | succ passes ih =>
      rw [searchFrom, CImg.read] at ended
      split at ended
      · rename_i inside
        rw [Option.bind_some, Int.toNat_natCast] at ended
        split at ended
        · rename_i passing
          rw [← Nat.cast_succ] at ended
          obtain ⟨stop, within, order, before, stopped⟩ := ih ended
          refine ⟨stop, within, by omega, ?_, stopped⟩
          intro n lower upper
          by_cases here : n = first
          · rw [here, passing]
          · exact before n (by omega) upper
        · rename_i stopped
          exact ⟨first, by omega, Nat.le_refl first, fun n lower upper => by omega, by simpa using stopped⟩
      · cases ended

theorem search_some {result : Int} (ended : search in_ test pass first found = some result) :
    ∃ stop, Stops in_ test first stop ∧
      result = if first = stop then found else pass (stop - 1 : Nat) := by
  obtain ⟨stop, stops⟩ := searchFrom_some ended
  have same := (search_stops stops).symm.trans ended
  exact ⟨stop, stops, (Option.some_inj.mp same).symm⟩

theorem search_again {start result : Int} (ended : search in_ test pass start found = some result) :
    search in_ test pass start result = some result := by
  rw [search, searchFrom] at ended ⊢
  obtain ⟨sample, read, ended⟩ := Option.bind_eq_some_iff.mp ended
  rw [read, Option.bind_some]
  split at ended
  · rename_i passing
    rw [if_pos passing]
    exact ended
  · rename_i stopped
    rw [if_neg stopped]

theorem exists_stops {position : Nat} (inside : position < in_.width) (order : first ≤ position)
    (stopped : test (in_.data position) = false) :
    ∃ stop ≤ position, Stops in_ test first stop := by
  have found : ∃ n, first ≤ n ∧ test (in_.data n) = false := ⟨position, order, stopped⟩
  have least : Nat.find found ≤ position := Nat.find_min' found ⟨order, stopped⟩
  obtain ⟨after, fails⟩ := Nat.find_spec found
  refine ⟨Nat.find found, least, by omega, after, ?_, fails⟩
  intro n lower before
  have not_found := Nat.find_min found before
  simpa [lower] using not_found

end Search

/-- The members, which `kernelCPU` passes to `Process` by reference. -/
structure CDataProcessorMaxMin where
  A : Int
  B : Int
  Ai : Int
  Hi : Int
  Ti : Int
  threshold : Int
deriving DecidableEq

namespace CDataProcessorMaxMin

def process (in_ : CImg Nat) (members : CDataProcessorMaxMin) : Option CDataProcessorMaxMin := do
  let least ← in_.min
  let greatest ← in_.max
  let base : Int := least
  let ampli : Int := greatest - base
  -- the trigger is the last sample of the base at the start
  let Itrig ← search in_ (fun sample => sample = base) (fun i => i) 0 members.Ti
  let Imax ← search in_ (fun sample => sample < ampli + base) (fun i => i + 1) 0 members.Ai
  let th := toInt ((ampli : ℚ) * 0.368 + base)
  let Ith ← search in_ (fun sample => th < sample) (fun i => i + 1) Imax Imax
  some ⟨ampli, base, Imax, Ith, Itrig, th⟩

def kernelCPUMaxMin {Tproc : Type} [IntCast Tproc] (in_ : CImg Nat) (out : CImg Tproc)
    (members : CDataProcessorMaxMin) : Option (CImg Tproc × CDataProcessorMaxMin) := do
  let members ← members.process in_
  some (← out.write 0 (members.A : Tproc), members)

end CDataProcessorMaxMin

end RockAMali
