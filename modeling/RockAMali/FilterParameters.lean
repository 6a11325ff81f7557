import RockAMali.TrapezoidProcessor

/-!
`CData_Filter::read_parameters` of `CDataProcessor_energy.hpp`: four parameters
are loaded into the members, one after the other, and four by way of variables
that are assigned to the members at the end. Its caller does not look at what it
returns.
-/

namespace RockAMali

structure LoadError where
  code : Int
  failed : code ≠ 0

structure ParameterFile (D : Type) where
  loadFile : Except LoadError Unit
  loadVar : Except LoadError Unit
  k : Except LoadError Int
  m : Except LoadError Int
  alpha : Except LoadError D
  n : Except LoadError Int
  q : Except LoadError Int
  threshold : Except LoadError D
  fraction : Except LoadError D
  Tm : Except LoadError Int

@[ext]
structure FilterMembers (F : Type) where
  k : Int
  m : Int
  n : Int
  q : Int
  Tm : Int
  decalage : Int
  threshold : F
  alpha : F
  fraction : F

namespace FilterMembers

variable {D F : Type}

/-- A call that returns at its first error, with what it has stored by then. -/
abbrev Load (F : Type) := ExceptT LoadError (StateM (FilterMembers F))

def load {α : Type} (result : Except LoadError α) : Load F α := ExceptT.mk (pure result)

def loadInto {α : Type} (result : Except LoadError α)
    (store : α → FilterMembers F → FilterMembers F) : Load F Unit := do
  let value ← load result
  modify (store value)

def readParameters (convert : D → F) (file : ParameterFile D) : Load F Unit := do
  load file.loadFile
  load file.loadVar
  loadInto file.k fun k members => { members with k }
  loadInto file.m fun m members => { members with m }
  let Alpha ← load file.alpha
  loadInto file.n fun n members => { members with n }
  loadInto file.q fun q members => { members with q }
  let Threshold ← load file.threshold
  let Fraction ← load file.fraction
  loadInto file.Tm fun Tm members => { members with Tm }
  modify fun members => { members with
    alpha := convert Alpha
    fraction := convert Fraction
    threshold := convert Threshold }

def read (convert : D → F) (file : ParameterFile D) (members : FilterMembers F) :
    Int × FilterMembers F :=
  match (readParameters convert file).run.run members with
  | (.ok _, members) => (0, members)
  | (.error error, members) => (error.code, members)

def readParametersAndSetup (convert : D → F) (file : ParameterFile D) (members : FilterMembers F) :
    Option (FilterMembers F) := do
  let (_, members) := read convert file members
  let decalage ← setupDecalage members.k members.m
  some { members with decalage }

end FilterMembers

structure ParameterValues (D : Type) where
  k : Int
  m : Int
  alpha : D
  n : Int
  q : Int
  threshold : D
  fraction : D
  Tm : Int

namespace ParameterFile

variable {D F : Type} {file : ParameterFile D}

structure Complete (file : ParameterFile D) (values : ParameterValues D) : Prop where
  loadFile : file.loadFile = .ok ()
  loadVar : file.loadVar = .ok ()
  k : file.k = .ok values.k
  m : file.m = .ok values.m
  alpha : file.alpha = .ok values.alpha
  n : file.n = .ok values.n
  q : file.q = .ok values.q
  threshold : file.threshold = .ok values.threshold
  fraction : file.fraction = .ok values.fraction
  Tm : file.Tm = .ok values.Tm

structure Assigned (convert : D → F) (file : ParameterFile D) (members : FilterMembers F)
    (values : ParameterValues D) : Prop where
  complete : Complete file values
  k : members.k = values.k
  m : members.m = values.m
  n : members.n = values.n
  q : members.q = values.q
  Tm : members.Tm = values.Tm
  threshold : members.threshold = convert values.threshold
  alpha : members.alpha = convert values.alpha
  fraction : members.fraction = convert values.fraction

def opened (file : ParameterFile D) : Bool := file.loadFile.isOk && file.loadVar.isOk

structure Harmless (file : ParameterFile D) (members : FilterMembers F) : Prop where
  k : file.opened = true → ∀ k, file.k = .ok k → k = members.k
  m : file.opened = true → file.k.isOk = true → ∀ m, file.m = .ok m → m = members.m
  n : file.opened = true → file.k.isOk = true → file.m.isOk = true → file.alpha.isOk = true →
    ∀ n, file.n = .ok n → n = members.n
  q : file.opened = true → file.k.isOk = true → file.m.isOk = true → file.alpha.isOk = true →
    file.n.isOk = true → ∀ q, file.q = .ok q → q = members.q

end ParameterFile

namespace FilterMembers

variable {D F : Type} {convert : D → F} {file : ParameterFile D} {members : FilterMembers F}

open ParameterFile

def kept (file : ParameterFile D) (members : FilterMembers F) : FilterMembers F :=
  let k := file.opened
  let m := k && file.k.isOk
  let n := m && file.m.isOk && file.alpha.isOk
  let q := n && file.n.isOk
  { members with
    k := if k then file.k.toOption.getD members.k else members.k
    m := if m then file.m.toOption.getD members.m else members.m
    n := if n then file.n.toOption.getD members.n else members.n
    q := if q then file.q.toOption.getD members.q else members.q }

theorem read_complete {values : ParameterValues D} (complete : Complete file values) :
    read convert file members = (0, { members with
      k := values.k
      m := values.m
      n := values.n
      q := values.q
      Tm := values.Tm
      threshold := convert values.threshold
      alpha := convert values.alpha
      fraction := convert values.fraction }) := by
  obtain ⟨loadFile, loadVar, k, m, alpha, n, q, threshold, fraction, Tm⟩ := file
  obtain ⟨rfl, rfl, rfl, rfl, rfl, rfl, rfl, rfl, rfl, rfl⟩ := complete
  rfl

theorem read_incomplete (incomplete : ∀ values, ¬Complete file values) :
    ∃ error : LoadError, read convert file members = (error.code, kept file members) := by
  obtain ⟨loadFile, loadVar, k, m, alpha, n, q, threshold, fraction, Tm⟩ := file
  rcases loadFile with error | _
  · exact ⟨error, rfl⟩
  rcases loadVar with error | _
  · exact ⟨error, rfl⟩
  rcases k with error | k
  · exact ⟨error, rfl⟩
  rcases m with error | m
  · exact ⟨error, rfl⟩
  rcases alpha with error | alpha
  · exact ⟨error, rfl⟩
  rcases n with error | n
  · exact ⟨error, rfl⟩
  rcases q with error | q
  · exact ⟨error, rfl⟩
  rcases threshold with error | threshold
  · exact ⟨error, rfl⟩
  rcases fraction with error | fraction
  · exact ⟨error, rfl⟩
  rcases Tm with error | Tm
  · exact ⟨error, rfl⟩
  exact absurd ⟨rfl, rfl, rfl, rfl, rfl, rfl, rfl, rfl, rfl, rfl⟩
    (incomplete ⟨k, m, alpha, n, q, threshold, fraction, Tm⟩)

theorem stored_eq_iff (reached : Bool) (result : Except LoadError Int) (value : Int) :
    (if reached then result.toOption.getD value else value) = value ↔
      (reached = true → ∀ loaded, result = .ok loaded → loaded = value) := by
  cases reached with
  | false => simp
  | true =>
      cases result with
      | error error => simp [Except.toOption]
      | ok loaded => simp [Except.toOption]

theorem kept_eq_iff : kept file members = members ↔ Harmless file members := by
  rw [FilterMembers.ext_iff]
  simp only [kept, stored_eq_iff]
  simp only [Bool.and_eq_true, and_imp, and_true]
  constructor
  · rintro ⟨k, m, n, q⟩
    exact ⟨k, m, n, q⟩
  · rintro ⟨k, m, n, q⟩
    exact ⟨k, m, n, q⟩

def Atomic (convert : D → F) (file : ParameterFile D) (members : FilterMembers F) : Prop :=
  (∃ values, (read convert file members).1 = 0 ∧
    Assigned convert file (read convert file members).2 values) ∨
  ((read convert file members).1 ≠ 0 ∧ (read convert file members).2 = members)

def Setup (convert : D → F) (file : ParameterFile D) (members : FilterMembers F) : Prop :=
  ∃ after, readParametersAndSetup convert file members = some after ∧
    ((∃ values, Complete file values ∧ after.decalage = 2 * values.k + values.m + 2) ∨
      after.decalage = members.decalage)

theorem atomic_iff :
    Atomic convert file members ↔ (∃ values, Complete file values) ∨ Harmless file members := by
  by_cases complete : ∃ values, Complete file values
  · obtain ⟨values, complete⟩ := complete
    refine iff_of_true (.inl ⟨values, ?_, ?_⟩) (.inl ⟨values, complete⟩)
    · rw [read_complete complete]
    · rw [read_complete complete]
      exact ⟨complete, rfl, rfl, rfl, rfl, rfl, rfl, rfl, rfl⟩
  · have incomplete := not_exists.mp complete
    obtain ⟨error, ended⟩ : ∃ error : LoadError,
        read convert file members = (error.code, kept file members) := read_incomplete incomplete
    rw [Atomic, ended, or_iff_right complete, ← kept_eq_iff]
    constructor
    · rintro (⟨_, zero, _⟩ | ⟨_, same⟩)
      · exact absurd zero error.failed
      · exact same
    · exact fun same => .inr ⟨error.failed, same⟩

theorem readParametersAndSetup_eq_some {after : FilterMembers F} :
    readParametersAndSetup convert file members = some after ↔
      DecalageFits (read convert file members).2.k (read convert file members).2.m ∧
        after = { (read convert file members).2 with
          decalage := 2 * (read convert file members).2.k + (read convert file members).2.m + 2 } := by
  constructor
  · intro ran
    obtain ⟨_, offset, same⟩ := Option.bind_eq_some_iff.mp ran
    obtain ⟨fits, rfl⟩ := setupDecalage_eq_some.mp offset
    exact ⟨fits, (Option.some_inj.mp same).symm⟩
  · rintro ⟨fits, rfl⟩
    have offset := setupDecalage_eq_some.mpr ⟨fits, rfl⟩
    simp only [readParametersAndSetup, offset, Option.bind_eq_bind, Option.bind_some]

theorem setup_complete_iff {values : ParameterValues D} (complete : Complete file values) :
    Setup convert file members ↔ DecalageFits values.k values.m := by
  constructor
  · rintro ⟨after, ran, _⟩
    have fits := (readParametersAndSetup_eq_some.mp ran).1
    rwa [read_complete complete] at fits
  · intro fits
    refine ⟨_, readParametersAndSetup_eq_some.mpr ⟨?_, rfl⟩, .inl ⟨values, complete, ?_⟩⟩
    · rwa [read_complete complete]
    · rw [read_complete complete]

theorem setup_kept_iff (incomplete : ∀ values, ¬Complete file values)
    (same : (read convert file members).2 = members) :
    Setup convert file members ↔
      DecalageFits members.k members.m ∧ members.decalage = 2 * members.k + members.m + 2 := by
  constructor
  · rintro ⟨after, ran, ⟨values, complete, _⟩ | unchanged⟩
    · exact absurd complete (incomplete values)
    · obtain ⟨fits, rfl⟩ := readParametersAndSetup_eq_some.mp ran
      rw [same] at fits unchanged
      exact ⟨fits, unchanged.symm⟩
  · rintro ⟨fits, given⟩
    refine ⟨_, readParametersAndSetup_eq_some.mpr ⟨?_, rfl⟩, .inr ?_⟩
    · rwa [same]
    · rw [same]
      exact given.symm

/-- A load is all or nothing where it is complete, or where the members had the
values that it loads and the offset that they give, and this offset is an `int`. -/
theorem allOrNothing_iff (convert : D → F) (file : ParameterFile D) (members : FilterMembers F) :
    (Atomic convert file members ∧ Setup convert file members) ↔
      (∃ values, Complete file values ∧ DecalageFits values.k values.m) ∨
        (Harmless file members ∧ DecalageFits members.k members.m ∧
          members.decalage = 2 * members.k + members.m + 2) := by
  rw [atomic_iff]
  by_cases complete : ∃ values, Complete file values
  · obtain ⟨values, loaded⟩ := complete
    rw [setup_complete_iff loaded]
    constructor
    · rintro ⟨_, fits⟩
      exact .inl ⟨values, loaded, fits⟩
    · intro given
      refine ⟨.inl ⟨values, loaded⟩, ?_⟩
      rcases given with ⟨others, same, fits⟩ | ⟨harmless, fits, _⟩
      · rwa [Except.ok.inj (loaded.k.symm.trans same.k), Except.ok.inj (loaded.m.symm.trans same.m)]
      · have opened : file.opened = true := by
          rw [ParameterFile.opened, loaded.loadFile, loaded.loadVar]
          rfl
        have found : file.k.isOk = true := by
          rw [loaded.k]
          rfl
        rwa [harmless.k opened _ loaded.k, harmless.m opened found _ loaded.m]
  · have incomplete := not_exists.mp complete
    obtain ⟨error, ended⟩ : ∃ error : LoadError,
        read convert file members = (error.code, kept file members) := read_incomplete incomplete
    have none : ¬∃ values, Complete file values ∧ DecalageFits values.k values.m :=
      fun ⟨values, loaded, _⟩ => incomplete values loaded
    rw [or_iff_right complete, or_iff_right none]
    constructor
    · rintro ⟨harmless, set⟩
      have same : (read convert file members).2 = members := by
        rw [ended, kept_eq_iff.mpr harmless]
      exact ⟨harmless, (setup_kept_iff incomplete same).mp set⟩
    · rintro ⟨harmless, given⟩
      have same : (read convert file members).2 = members := by
        rw [ended, kept_eq_iff.mpr harmless]
      exact ⟨harmless, (setup_kept_iff incomplete same).mpr given⟩

/-- The filter that a processor has after its constructor, also after a failed load. -/
def setup (convert : D → F) (file : ParameterFile D) (members : FilterMembers F) :
    Option (CDataFilter F) :=
  let members := (read convert file members).2
  match computed : setupDecalage members.k members.m with
  | none => none
  | some decalage => some
    { k := members.k
      m := members.m
      n := members.n
      q := members.q
      Tm := members.Tm
      decalage
      threshold := members.threshold
      alpha := members.alpha
      fraction := members.fraction
      computed }

theorem allOrNothing_fails :
    ¬(Atomic id
        (⟨.ok (), .ok (), .ok 5, .error ⟨1, by decide⟩, .ok 0, .ok 3, .ok 4, .ok 6, .ok 7, .ok 8⟩ :
          ParameterFile Int)
        ⟨2, 3, 4, 5, 6, 9, 0, 0, 0⟩ ∧
      Setup id
        (⟨.ok (), .ok (), .ok 5, .error ⟨1, by decide⟩, .ok 0, .ok 3, .ok 4, .ok 6, .ok 7, .ok 8⟩ :
          ParameterFile Int)
        ⟨2, 3, 4, 5, 6, 9, 0, 0, 0⟩) := by
  rintro ⟨atomic, _⟩
  obtain ⟨values, complete⟩ | harmless := atomic_iff.mp atomic
  · exact absurd complete.m (by simp)
  · exact absurd (harmless.k rfl 5 rfl) (by decide)

end FilterMembers

end RockAMali
