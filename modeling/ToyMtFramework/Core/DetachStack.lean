import Mathlib.Logic.Function.Basic
import Mathlib.Data.List.Nodup

/-! Who answers for the items of a stack that is detached as a whole.
An item is pushed once, leaves the stack in the hands of the worker that detached
it, is being released by that worker and is gone. The lists and the place of each
item agree by construction, so that an item is never in two hands. -/
namespace ToyMtFramework.DetachStack

inductive Place (κ : Type*) where
  | apart
  | stacked
  | held (k : κ)
  | releasing (k : κ)
  | gone

structure Ledger (ν κ : Type*) where
  stack : List ν
  held : κ → List ν
  place : ν → Place κ
  stack_distinct : stack.Nodup
  held_distinct : ∀ k, (held k).Nodup
  mem_stack : ∀ n, n ∈ stack ↔ place n = .stacked
  mem_held : ∀ k n, n ∈ held k ↔ place n = .held k

namespace Ledger
variable {ν κ : Type*}

def empty : Ledger ν κ where
  stack := []
  held := fun _ => []
  place := fun _ => .apart
  stack_distinct := List.nodup_nil
  held_distinct := fun _ => List.nodup_nil
  mem_stack := by simp
  mem_held := by simp

open Classical in
noncomputable def push (L : Ledger ν κ) (n : ν) (apart : L.place n = .apart) : Ledger ν κ where
  stack := n :: L.stack
  held := L.held
  place := Function.update L.place n .stacked
  stack_distinct := by
    have absent : n ∉ L.stack := by simp [L.mem_stack,apart]
    exact List.nodup_cons.mpr ⟨absent,L.stack_distinct⟩
  held_distinct := L.held_distinct
  mem_stack m := by
    by_cases same : m = n
    · simp [same]
    · simp [same,L.mem_stack]
  mem_held k m := by
    by_cases same : m = n
    · simp [same,L.mem_held,apart]
    · simp [same,L.mem_held]

noncomputable def detach [DecidableEq κ] (L : Ledger ν κ) (k : κ) (idle : L.held k = []) :
    Ledger ν κ where
  stack := []
  held := Function.update L.held k L.stack
  place n := match L.place n with
    | .stacked => .held k
    | other => other
  stack_distinct := List.nodup_nil
  held_distinct j := by
    by_cases same : j = k
    · simp [same,L.stack_distinct]
    · simp [same,L.held_distinct]
  mem_stack n := by
    cases place : L.place n <;> simp
  mem_held j n := by
    have none_held : ¬L.place n = .held k := by simp [← L.mem_held,idle]
    by_cases same : j = k
    · subst j
      rw [Function.update_self,L.mem_stack]
      cases place : L.place n with
      | held i => simpa [place] using none_held
      | _ => simp
    · rw [Function.update_of_ne same,L.mem_held]
      cases place : L.place n with
      | stacked => simp [Ne.symm same]
      | _ => simp

open Classical in
noncomputable def work (L : Ledger ν κ) (k : κ) (n : ν) (rest : List ν)
    (top : L.held k = n :: rest) : Ledger ν κ where
  stack := L.stack
  held := Function.update L.held k rest
  place := Function.update L.place n (.releasing k)
  stack_distinct := L.stack_distinct
  held_distinct j := by
    by_cases same : j = k
    · have distinct := L.held_distinct k
      rw [top] at distinct
      simpa [same] using (List.nodup_cons.mp distinct).2
    · simp [same,L.held_distinct]
  mem_stack m := by
    have held : L.place n = .held k := by simp [← L.mem_held,top]
    by_cases same : m = n
    · simp [same,L.mem_stack,held]
    · simp [same,L.mem_stack]
  mem_held j m := by
    have held : L.place n = .held k := by simp [← L.mem_held,top]
    have distinct := L.held_distinct k
    rw [top] at distinct
    have absent := (List.nodup_cons.mp distinct).1
    by_cases self : j = k
    · subst j
      rw [Function.update_self]
      by_cases same : m = n
      · simpa [same] using absent
      · rw [Function.update_of_ne same,← L.mem_held,top]
        simp [same]
    · rw [Function.update_of_ne self,L.mem_held]
      by_cases same : m = n
      · simpa [same,held] using Ne.symm self
      · rw [Function.update_of_ne same]

open Classical in
noncomputable def release (L : Ledger ν κ) (k : κ) (n : ν) (busy : L.place n = .releasing k) :
    Ledger ν κ where
  stack := L.stack
  held := L.held
  place := Function.update L.place n .gone
  stack_distinct := L.stack_distinct
  held_distinct := L.held_distinct
  mem_stack m := by
    by_cases same : m = n
    · simp [same,L.mem_stack,busy]
    · simp [same,L.mem_stack]
  mem_held j m := by
    by_cases same : m = n
    · simp [same,L.mem_held,busy]
    · simp [same,L.mem_held]

variable (L : Ledger ν κ)

@[simp] theorem empty_place (n : ν) : (empty : Ledger ν κ).place n = .apart := rfl

theorem push_place_self (n : ν) (apart : L.place n = .apart) :
    (L.push n apart).place n = .stacked := by
  simp [push]

theorem push_place_of_ne {n m : ν} (apart : L.place n = .apart) (other : m ≠ n) :
    (L.push n apart).place m = L.place m := by
  simp [push,other]

theorem detach_place [DecidableEq κ] (k : κ) (idle : L.held k = []) (n : ν) :
    L.place n = .stacked ∧ (L.detach k idle).place n = .held k ∨
      L.place n ≠ .stacked ∧ (L.detach k idle).place n = L.place n := by
  cases place : L.place n <;> simp [detach,place]

theorem work_place_self (k : κ) (n : ν) (rest : List ν) (top : L.held k = n :: rest) :
    (L.work k n rest top).place n = .releasing k := by
  simp [work]

theorem work_place_of_ne {k : κ} {n m : ν} {rest : List ν} (top : L.held k = n :: rest)
    (other : m ≠ n) : (L.work k n rest top).place m = L.place m := by
  simp [work,other]

theorem release_place_self (k : κ) (n : ν) (busy : L.place n = .releasing k) :
    (L.release k n busy).place n = .gone := by
  simp [release]

theorem release_place_of_ne {k : κ} {n m : ν} (busy : L.place n = .releasing k) (other : m ≠ n) :
    (L.release k n busy).place m = L.place m := by
  simp [release,other]

end Ledger
end ToyMtFramework.DetachStack
