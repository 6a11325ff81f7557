import Mathlib.Data.List.Perm.Basic
import RockAMali.Library.Transition

/-!
`allocator` of `UDP/allocator.hpp`: one block of 1024 bytes for the handlers of a
server, and `operator new` for what it is too small or too busy for.
-/

namespace RockAMali

structure Block where
  address : Nat
  size : Nat
  deriving DecidableEq

def Block.Apart (block other : Block) : Prop :=
  block.address ≠ other.address ∧
    (block.address + block.size ≤ other.address ∨ other.address + other.size ≤ block.address)

theorem Block.Apart.symm {block other : Block} (apart : block.Apart other) : other.Apart block :=
  ⟨apart.1.symm, apart.2.symm⟩

/-- The flag, and the blocks of `operator new` that are not deleted. -/
structure Allocator where
  inUse : Bool
  heap : List Block

namespace Allocator

variable (space : Nat)

/-- `fresh` is where `operator new` has room. -/
def allocate (fresh : Nat) (allocator : Allocator) (n : Nat) : Allocator × Nat :=
  if allocator.inUse = true ∨ 1024 ≤ n then
    ({ allocator with heap := ⟨fresh, n⟩ :: allocator.heap }, fresh)
  else ({ allocator with inUse := true }, space)

/-- `operator delete` takes a pointer of `operator new` only. -/
def deallocate (allocator : Allocator) (p : Nat) : Option Allocator :=
  if p ≠ space then
    if ∃ block ∈ allocator.heap, block.address = p then
      some { allocator with heap := allocator.heap.filter fun block => block.address ≠ p }
    else none
  else some { allocator with inUse := false }

/-- What `operator new` promises. -/
def Given (allocator : Allocator) (block : Block) : Prop :=
  ∀ other ∈ ⟨space, 1024⟩ :: allocator.heap, block.Apart other

end Allocator

structure Handlers where
  allocator : Allocator
  held : List Block

namespace Handlers

def initial : Handlers := ⟨⟨false, []⟩, []⟩

inductive Next (space : Nat) : Handlers → Handlers → Prop
  | allocate {handlers fresh n} : handlers.allocator.Given space ⟨fresh, n⟩ →
      Next space handlers
        ⟨(handlers.allocator.allocate space fresh n).1,
          ⟨(handlers.allocator.allocate space fresh n).2, n⟩ :: handlers.held⟩
  | deallocate {handlers block allocator} : block ∈ handlers.held →
      handlers.allocator.deallocate space block.address = some allocator →
      Next space handlers ⟨allocator, handlers.held.erase block⟩

def Reachable (space : Nat) : Handlers → Prop :=
  Transition.Reachable (· = initial) (Next space)

structure Kept (space : Nat) (handlers : Handlers) (own : List Block) : Prop where
  held : handlers.held.Perm (own ++ handlers.allocator.heap)
  idle : handlers.allocator.inUse = false → own = []
  busy : handlers.allocator.inUse = true → ∃ n < 1024, own = [⟨space, n⟩]
  apart : (⟨space, 1024⟩ :: handlers.allocator.heap).Pairwise Block.Apart

variable {space : Nat} {handlers successor : Handlers} {own : List Block} {block : Block}

theorem Kept.own_of_mem (kept : Kept space handlers own) (member : block ∈ own) :
    handlers.allocator.inUse = true ∧ own = [block] ∧ block.address = space ∧
      block.size < 1024 := by
  cases flag : handlers.allocator.inUse with
  | false =>
      rw [kept.idle flag] at member
      cases member
  | true =>
      obtain ⟨n, small, same⟩ := kept.busy flag
      rw [same, List.mem_singleton] at member
      subst member
      exact ⟨rfl, same, rfl, small⟩

theorem Kept.heap_ne (kept : Kept space handlers own) (member : block ∈ handlers.allocator.heap) :
    block.address ≠ space :=
  fun same => ((List.pairwise_cons.mp kept.apart).1 block member).1 same.symm

theorem Kept.allocate (kept : Kept space handlers own) {fresh n : Nat}
    (given : handlers.allocator.Given space ⟨fresh, n⟩) :
    ∃ own, Kept space
      ⟨(handlers.allocator.allocate space fresh n).1,
        ⟨(handlers.allocator.allocate space fresh n).2, n⟩ :: handlers.held⟩ own := by
  by_cases new : handlers.allocator.inUse = true ∨ 1024 ≤ n
  · rw [Allocator.allocate, if_pos new]
    refine ⟨own, ?_, kept.idle, kept.busy, ?_⟩
    · exact (kept.held.cons _).trans List.perm_middle.symm
    · obtain ⟨heap, rest⟩ := List.pairwise_cons.mp kept.apart
      obtain ⟨first, others⟩ := List.forall_mem_cons.mp given
      refine List.pairwise_cons.mpr ⟨?_, List.pairwise_cons.mpr ⟨others, rest⟩⟩
      exact List.forall_mem_cons.mpr ⟨⟨first.1.symm, first.2.symm⟩, heap⟩
  · rw [Allocator.allocate, if_neg new]
    rw [not_or, Bool.not_eq_true] at new
    have nothing := kept.idle new.1
    subst nothing
    refine ⟨[⟨space, n⟩], kept.held.cons _, ?_, ?_, kept.apart⟩
    · intro flag
      cases flag
    · intro _
      exact ⟨n, Nat.lt_of_not_le new.2, rfl⟩

theorem Kept.heap_filter (kept : Kept space handlers own)
    (member : block ∈ handlers.allocator.heap) :
    handlers.allocator.heap.Perm
      (block :: handlers.allocator.heap.filter fun other => other.address ≠ block.address) := by
  obtain ⟨before, after, split⟩ := List.append_of_mem member
  have apart := (List.pairwise_cons.mp kept.apart).2
  rw [split, List.pairwise_append, List.pairwise_cons] at apart
  obtain ⟨_, ⟨later, _⟩, across⟩ := apart
  have earlier : before.filter (fun other => other.address ≠ block.address) = before := by
    apply List.filter_eq_self.mpr
    intro other inside
    simpa using (across other inside block List.mem_cons_self).1
  have others : after.filter (fun other => other.address ≠ block.address) = after := by
    apply List.filter_eq_self.mpr
    intro other inside
    simpa using (later other inside).1.symm
  rw [split, List.filter_append, List.filter_cons_of_neg (by simp), earlier, others]
  exact List.perm_middle

theorem Kept.deallocate_space (kept : Kept space handlers own) (member : block ∈ handlers.held)
    (place : block.address = space) :
    Kept space ⟨{ handlers.allocator with inUse := false }, handlers.held.erase block⟩ [] := by
  obtain inside | inside := List.mem_append.mp (kept.held.mem_iff.mp member)
  · obtain ⟨_, same, _⟩ := kept.own_of_mem inside
    refine ⟨?_, fun _ => rfl, fun flag => absurd flag Bool.false_ne_true, kept.apart⟩
    have rest := kept.held.erase block
    rw [same, List.singleton_append, List.erase_cons_head] at rest
    exact rest
  · exact absurd place (kept.heap_ne inside)

theorem Kept.mem_heap (kept : Kept space handlers own) (member : block ∈ handlers.held)
    (place : block.address ≠ space) : block ∈ handlers.allocator.heap := by
  obtain inside | inside := List.mem_append.mp (kept.held.mem_iff.mp member)
  · exact absurd (kept.own_of_mem inside).2.2.1 place
  · exact inside

theorem Kept.deallocate_heap (kept : Kept space handlers own) (member : block ∈ handlers.held)
    (place : block.address ≠ space) :
    Kept space
      ⟨{ handlers.allocator with
          heap := handlers.allocator.heap.filter fun other => other.address ≠ block.address },
        handlers.held.erase block⟩ own := by
  have deleted := kept.heap_filter (kept.mem_heap member place)
  refine ⟨?_, kept.idle, kept.busy, ?_⟩
  · apply List.Perm.cons_inv
    calc (block :: handlers.held.erase block).Perm handlers.held :=
          (List.perm_cons_erase member).symm
      _ |>.Perm (own ++ handlers.allocator.heap) := kept.held
      _ |>.Perm _ := (deleted.append_left own).trans List.perm_middle
  · obtain ⟨first, rest⟩ := List.pairwise_cons.mp kept.apart
    refine List.pairwise_cons.mpr ⟨?_, rest.filter _⟩
    intro other inside
    exact first other (List.mem_of_mem_filter inside)

theorem Kept.deallocate (kept : Kept space handlers own) (member : block ∈ handlers.held) :
    ∃ allocator own, handlers.allocator.deallocate space block.address = some allocator ∧
      Kept space ⟨allocator, handlers.held.erase block⟩ own := by
  by_cases place : block.address = space
  · refine ⟨_, [], ?_, kept.deallocate_space member place⟩
    rw [Allocator.deallocate, if_neg (not_not_intro place)]
  · refine ⟨_, own, ?_, kept.deallocate_heap member place⟩
    rw [Allocator.deallocate, if_pos place, if_pos ⟨block, kept.mem_heap member place, rfl⟩]

theorem kept_of_reachable (reachable : Reachable space handlers) :
    ∃ own, Kept space handlers own := by
  apply Transition.Reachable.invariant _ _ reachable
  · rintro _ rfl
    exact ⟨[], .refl _, fun _ => rfl, fun flag => absurd flag Bool.false_ne_true,
      List.pairwise_singleton _ _⟩
  · rintro handlers _ ⟨own, kept⟩ (given | ⟨member, done⟩)
    · exact kept.allocate given
    · obtain ⟨allocator, own, same, next⟩ := kept.deallocate member
      cases same.symm.trans done
      exact ⟨own, next⟩

theorem Kept.held_apart (kept : Kept space handlers own) :
    handlers.held.Pairwise Block.Apart := by
  obtain ⟨first, rest⟩ := List.pairwise_cons.mp kept.apart
  rw [kept.held.pairwise_iff fun apart => apart.symm, List.pairwise_append]
  refine ⟨?_, rest, ?_⟩
  · cases flag : handlers.allocator.inUse with
    | false =>
        rw [kept.idle flag]
        exact .nil
    | true =>
        obtain ⟨n, _, same⟩ := kept.busy flag
        rw [same]
        exact List.pairwise_singleton _ _
  · intro block inside other outside
    obtain ⟨_, _, place, small⟩ := kept.own_of_mem inside
    obtain ⟨address, room⟩ := first other outside
    refine ⟨place ▸ address, ?_⟩
    simp only at room
    omega

/-- Whatever the order in which the handlers come and go: no two of the blocks have a
byte in common, each can be given back, and when none is held nothing is left. -/
theorem handler_memory (reachable : Reachable space handlers) :
    handlers.held.Pairwise Block.Apart ∧
    (∀ block ∈ handlers.held, ∃ allocator,
      handlers.allocator.deallocate space block.address = some allocator ∧
        Reachable space ⟨allocator, handlers.held.erase block⟩) ∧
    (handlers.held = [] → handlers.allocator = ⟨false, []⟩) := by
  obtain ⟨own, kept⟩ := kept_of_reachable reachable
  refine ⟨kept.held_apart, ?_, ?_⟩
  · intro block member
    obtain ⟨allocator, _, done, _⟩ := kept.deallocate member
    exact ⟨allocator, done, .step reachable (.deallocate member done)⟩
  · intro none
    have nothing := kept.held
    rw [none, List.nil_perm, List.append_eq_nil_iff] at nothing
    have idle : handlers.allocator.inUse = false := by
      by_contra busy
      obtain ⟨n, _, same⟩ := kept.busy (by simpa using busy)
      rw [nothing.1] at same
      cases same
    calc handlers.allocator = ⟨handlers.allocator.inUse, handlers.allocator.heap⟩ := rfl
      _ = ⟨false, []⟩ := by rw [idle, nothing.2]

theorem handler_memory_two :
    let handlers : Handlers := ⟨⟨true, [⟨5000, 200⟩]⟩, [⟨5000, 200⟩, ⟨64, 100⟩]⟩
    Reachable 64 handlers ∧ handlers.held.Pairwise Block.Apart ∧
      (∀ block ∈ handlers.held, ∃ allocator,
        handlers.allocator.deallocate 64 block.address = some allocator ∧
          Reachable 64 ⟨allocator, handlers.held.erase block⟩) ∧
      (handlers.held = [] → handlers.allocator = ⟨false, []⟩) := by
  intro handlers
  have given : Allocator.Given 64 ⟨true, []⟩ ⟨5000, 200⟩ := by
    simp [Allocator.Given, Block.Apart]
  have givenFirst : Allocator.Given 64 initial.allocator ⟨5000, 100⟩ := by
    simp [Allocator.Given, Block.Apart, initial]
  have first : Reachable 64 ⟨⟨true, []⟩, [⟨64, 100⟩]⟩ := .step (.start rfl) (.allocate givenFirst)
  have reachable : Reachable 64 handlers := .step first (.allocate given)
  exact ⟨reachable, handler_memory reachable⟩

end Handlers

end RockAMali
