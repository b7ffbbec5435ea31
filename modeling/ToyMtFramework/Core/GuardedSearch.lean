import Mathlib.Logic.Relation
import Mathlib.Data.List.Basic

/-! Two searches through a graph. One looks upward from a node for a node that nothing
is above, without passing a given start. The other goes downward, collects marked nodes
and does not look below a node that it has collected before. -/
namespace ToyMtFramework.GuardedSearch
open Relation

section Upward
variable {α : Type*} (above : α → List α) (start : α)

/-- All ways up end at the start. -/
inductive Enclosed : α → Prop where
  | under {a : α} (something : above a ≠ []) (all : ∀ b ∈ above a, b ≠ start → Enclosed b) : Enclosed a

/-- The first way up that is not enclosed leads, again and again, to a node that nothing is above. -/
inductive Escapes : α → Prop where
  | top {a : α} (nothing : above a = []) : Escapes a
  | first {a b : α} {before after : List α} (split : above a = before ++ b :: after)
      (closed : ∀ c ∈ before, c ≠ start → Enclosed above start c) (other : b ≠ start)
      (escapes : Escapes b) : Escapes a

variable {above start}

theorem Enclosed.not_escapes {a : α} (enclosed : Enclosed above start a) : ¬Escapes above start a := by
  induction enclosed with
  | under something all ih =>
    intro escapes
    cases escapes with
    | top nothing => exact something nothing
    | first split closed other escapes =>
      exact ih _ (by rw [split]; exact List.mem_append_cons_self) other escapes

theorem split_first {p q : α → Prop} (l : List α) (each : ∀ a ∈ l, p a ∨ q a) :
    (∀ a ∈ l, p a) ∨ ∃ before a after, l = before ++ a :: after ∧ (∀ b ∈ before, p b) ∧ ¬p a ∧ q a := by
  induction l with
  | nil => exact .inl fun a member => absurd member List.not_mem_nil
  | cons a l ih =>
    by_cases holds : p a
    · rcases ih fun b member => each b (List.mem_cons_of_mem a member) with all | ⟨before,b,after,split,closed,first⟩
      · exact .inl (List.forall_mem_cons.mpr ⟨holds,all⟩)
      · refine .inr ⟨a :: before,b,after,?_,List.forall_mem_cons.mpr ⟨holds,closed⟩,first⟩
        rw [split,List.cons_append]
    · refine .inr ⟨[],a,l,rfl,fun b member => absurd member List.not_mem_nil,holds,?_⟩
      exact (each a List.mem_cons_self).resolve_left holds

theorem decided_of_above {a : α}
    (each : ∀ b ∈ above a, b ≠ start → Enclosed above start b ∨ Escapes above start b) :
    Enclosed above start a ∨ Escapes above start a := by
  by_cases nothing : above a = []
  · exact .inr (.top nothing)
  · have cases (b : α) (member : b ∈ above a) :
        (b ≠ start → Enclosed above start b) ∨ b ≠ start ∧ Escapes above start b := by
      by_cases same : b = start
      · exact .inl fun other => absurd same other
      · exact (each b member same).imp (fun enclosed _ => enclosed) fun escapes => ⟨same,escapes⟩
    rcases split_first (above a) cases with all | ⟨before,b,after,split,closed,-,other,escapes⟩
    · exact .inl (.under nothing all)
    · exact .inr (.first split closed other escapes)

variable (above start) in
def Up (a b : α) : Prop :=
  b ∈ above a ∧ b ≠ start

theorem Escapes.path {a : α} (escapes : Escapes above start a) :
    ∃ top, ReflTransGen (Up above start) a top ∧ above top = [] := by
  induction escapes with
  | top nothing => exact ⟨_,.refl,nothing⟩
  | first split closed other escapes ih =>
    obtain ⟨top,path,nothing⟩ := ih
    exact ⟨top,.head ⟨by rw [split]; exact List.mem_append_cons_self,other⟩ path,nothing⟩

theorem not_enclosed_of_path {a top : α} (path : ReflTransGen (Up above start) a top)
    (nothing : above top = []) : ¬Enclosed above start a := by
  induction path using ReflTransGen.head_induction_on with
  | refl =>
    rintro ⟨something,-⟩
    exact something nothing
  | head step _ ih =>
    rintro ⟨-,all⟩
    exact ih (all _ step.1 step.2)

theorem escapes_iff_path {a : α} (decided : Enclosed above start a ∨ Escapes above start a) :
    Escapes above start a ↔ ∃ top, ReflTransGen (Up above start) a top ∧ above top = [] := by
  refine ⟨Escapes.path,?_⟩
  rintro ⟨top,path,nothing⟩
  exact decided.resolve_left (not_enclosed_of_path path nothing)

end Upward

section Downward
variable {ν : Type*} (edge : ν → ν → Prop) (passed collected : ν → Prop)

inductive Explored : ν → Prop where
  | collected {v : ν} (found : collected v) : Explored v
  | through {v : ν} (pass : passed v) (below : ∀ w, edge v w → Explored w) : Explored v

variable {edge passed collected}

theorem Explored.mono {more : ν → Prop} (grows : ∀ v, collected v → more v) {v : ν}
    (explored : Explored edge passed collected v) : Explored edge passed more v := by
  induction explored with
  | collected found => exact .collected (grows _ found)
  | through pass below ih => exact .through pass ih

/-- A search that has looked below everything it has collected has seen all that can be reached. -/
theorem Explored.reach (expanded : ∀ v, collected v → ∀ w, edge v w → Explored edge passed collected w)
    {v w : ν} (explored : Explored edge passed collected v) (path : ReflTransGen edge v w) :
    Explored edge passed collected w := by
  induction path with
  | refl => exact explored
  | tail _ step ih =>
    cases ih with
    | collected found => exact expanded _ found _ step
    | through pass below => exact below _ step

theorem Explored.cases {v : ν} (explored : Explored edge passed collected v) : collected v ∨ passed v := by
  cases explored with
  | collected found => exact .inl found
  | through pass below => exact .inr pass

/-- A search that has ended has not gone round in nodes that it passes. -/
theorem Explored.no_cycle (sound : ∀ v, collected v → ¬passed v) {v : ν}
    (explored : Explored edge passed collected v) : ¬TransGen (fun v w => edge v w ∧ passed v) v v := by
  have founded : Acc (fun w v => edge v w ∧ passed v) v := by
    induction explored with
    | collected found => exact Acc.intro _ fun w step => absurd step.2 (sound _ found)
    | through pass below ih => exact Acc.intro _ fun w step => ih w step.1
  have irreflexive (v : ν) (founded : Acc (TransGen fun w v => edge v w ∧ passed v) v) :
      ¬TransGen (fun w v => edge v w ∧ passed v) v v := by
    induction founded with
    | intro v _ ih => exact fun cycle => ih v cycle cycle
  exact fun cycle => irreflexive v founded.transGen (transGen_swap.mp cycle)

end Downward

end ToyMtFramework.GuardedSearch
