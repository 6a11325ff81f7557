import Mathlib.Order.Basic

/-!
Loops whose body can fail, counted or ended by a test, and the invariant rules
for them.
-/

namespace Loop

universe u

variable {σ : Type u}

def times (body : Nat → σ → Option σ) : Nat → σ → Option σ
  | 0, state => some state
  | count + 1, state => (times body count state).bind (body count)

theorem times_rule {body : Nat → σ → Option σ} {count : Nat} {state : σ}
    (holds : Nat → σ → Prop) (start : holds 0 state)
    (step : ∀ number < count, ∀ current, holds number current →
      ∃ next, body number current = some next ∧ holds (number + 1) next) :
    ∃ last, times body count state = some last ∧ holds count last := by
  induction count with
  | zero => exact ⟨state, rfl, start⟩
  | succ count ih =>
      obtain ⟨current, ran, held⟩ := ih fun number bound => step number (by omega)
      obtain ⟨next, taken, nextHeld⟩ := step count (by omega) current held
      refine ⟨next, ?_, nextHeld⟩
      rw [times, ran]
      exact taken

/-- for(int i=first; i<=last; ++i) -/
def upTo (first last : Int) (body : Int → σ → Option σ) (state : σ) : Option σ :=
  times (fun number => body (first + number)) (last + 1 - first).toNat state

theorem upTo_empty {first last : Int} {body : Int → σ → Option σ} {state : σ}
    (empty : last < first) : upTo first last body state = some state := by
  have none : (last + 1 - first).toNat = 0 := by omega
  rw [upTo, none, times]

theorem upTo_rule {first last : Int} {body : Int → σ → Option σ} {state : σ}
    (holds : Int → σ → Prop) (order : first ≤ last + 1) (start : holds first state)
    (step : ∀ i, first ≤ i → i ≤ last → ∀ current, holds i current →
      ∃ next, body i current = some next ∧ holds (i + 1) next) :
    ∃ final, upTo first last body state = some final ∧ holds (last + 1) final := by
  have final : first + ((last + 1 - first).toNat : Int) = last + 1 := by omega
  rw [← final]
  apply times_rule fun number current => holds (first + (number : Int)) current
  · simpa using start
  · intro number bound current held
    obtain ⟨next, taken, nextHeld⟩ := step (first + number) (by omega) (by omega) current held
    refine ⟨next, taken, ?_⟩
    push_cast
    rw [← Int.add_assoc]
    exact nextHeld

theorem times_first {body : Nat → σ → Option σ} {count : Nat} {state last : σ}
    (ran : times body (count + 1) state = some last) : ∃ next, body 0 state = some next := by
  induction count generalizing last with
  | zero => exact ⟨last, ran⟩
  | succ count ih =>
      obtain ⟨current, before, _⟩ := Option.bind_eq_some_iff.mp ran
      exact ih before

theorem upTo_first {first last : Int} {body : Int → σ → Option σ} {state final : σ}
    (order : first ≤ last) (ran : upTo first last body state = some final) :
    ∃ next, body first state = some next := by
  obtain ⟨count, passes⟩ : ∃ count : Nat, (last + 1 - first).toNat = count + 1 :=
    ⟨(last - first).toNat, by omega⟩
  rw [upTo, passes] at ran
  simpa using times_first ran

/-- do body while(again); -/
def doWhile (body : σ → Option σ) (again : σ → Bool) : Nat → σ → Option σ
  | 0, _ => none
  | fuel + 1, state =>
      (body state).bind fun next => if again next then doWhile body again fuel next else some next

theorem doWhile_endless {body : σ → Option σ} {again : σ → Bool} {state : σ}
    (holds : σ → Prop) (start : holds state)
    (step : ∀ current next, holds current → body current = some next →
      holds next ∧ again next = true) (fuel : Nat) : doWhile body again fuel state = none := by
  induction fuel generalizing state with
  | zero => rfl
  | succ fuel ih =>
      rw [doWhile, Option.bind_eq_none_iff]
      intro next taken
      obtain ⟨held, more⟩ := step state next start taken
      rw [if_pos more]
      exact ih held

section Related

variable {ρ : Type u} {τ τ' : Type*} {related : σ → ρ → Prop} {rest : τ → τ' → Prop}

theorem rel_mono {ended : σ → ρ → Prop} {x : Option σ} {y : Option ρ}
    (before : Option.Rel related x y)
    (later : ∀ current other, related current other → ended current other) :
    Option.Rel ended x y := by
  cases before with
  | some same => exact .some (later _ _ same)
  | none => exact .none

theorem rel_none {y : Option ρ} (before : Option.Rel related none y) : y = none := by
  cases before
  rfl

theorem bind_rel {x : Option σ} {y : Option ρ} {f : σ → Option τ} {g : ρ → Option τ'}
    (before : Option.Rel related x y)
    (later : ∀ current other, related current other → Option.Rel rest (f current) (g other)) :
    Option.Rel rest (x.bind f) (y.bind g) := by
  cases before with
  | some same => exact later _ _ same
  | none => exact .none

theorem bind_eq_of_rel {x : Option σ} {y : Option ρ} {f : σ → Option τ} {g : ρ → Option τ}
    (before : Option.Rel related x y)
    (same : ∀ current other, related current other → f current = g other) :
    x.bind f = y.bind g := by
  cases before with
  | some held => exact same _ _ held
  | none => rfl

theorem times_rel {body : Nat → σ → Option σ} {body' : Nat → ρ → Option ρ} {count : Nat}
    {state : σ} {state' : ρ} (related : Nat → σ → ρ → Prop) (start : related 0 state state')
    (step : ∀ number < count, ∀ current other, related number current other →
      Option.Rel (related (number + 1)) (body number current) (body' number other)) :
    Option.Rel (related count) (times body count state) (times body' count state') := by
  induction count with
  | zero => exact .some start
  | succ count ih =>
      have before := ih fun number bound => step number (by omega)
      exact bind_rel before (step count (by omega))

theorem upTo_rel {first last : Int} {body : Int → σ → Option σ} {body' : Int → ρ → Option ρ}
    {state : σ} {state' : ρ} (related : Int → σ → ρ → Prop) (order : first ≤ last + 1)
    (start : related first state state')
    (step : ∀ i, first ≤ i → i ≤ last → ∀ current other, related i current other →
      Option.Rel (related (i + 1)) (body i current) (body' i other)) :
    Option.Rel (related (last + 1)) (upTo first last body state) (upTo first last body' state') := by
  have final : first + ((last + 1 - first).toNat : Int) = last + 1 := by omega
  rw [← final]
  apply times_rel fun number current other => related (first + (number : Int)) current other
  · simpa using start
  · intro number bound current other same
    have next := step (first + number) (by omega) (by omega) current other same
    push_cast
    rwa [← Int.add_assoc]

end Related

end Loop
