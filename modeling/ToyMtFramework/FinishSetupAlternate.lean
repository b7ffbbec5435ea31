import ToyMtFramework.Core.Acyclic
import ToyMtFramework.FinishSetupSearch
import Mathlib.Data.List.Chain
import Mathlib.Data.Set.Finite.Lattice

/-! `alternateDependencyPaths` for any map of consumers, also one in which an id has an empty list. It
looks for a way from an id to one without an entry that leaves out one id. Without cycles it ends, and it
finds a way if there is one. -/
namespace ToyMtFramework.FinishSetup
open Relation

variable {deps : Dependencies} {parentID : Nat}

def Consumes (deps : Dependencies) (id consumer : Nat) : Prop :=
  ∃ consumers, deps id = some consumers ∧ consumer ∈ consumers

/-- A chain of consumers from the child to an id without an entry, none of which is the parent. -/
structure Way (deps : Dependencies) (parentID childID : Nat) (chain : List Nat) : Prop where
  starts : chain.head? = some childID
  consumers : chain.IsChain (Consumes deps)
  ends : ∃ top, chain.getLast? = some top ∧ deps top = none
  avoids : parentID ∉ chain

theorem Way.stop {id : Nat} (other : id ≠ parentID) (nothing : deps id = none) : Way deps parentID id [id] := by
  refine ⟨rfl,List.isChain_singleton id,⟨id,rfl,nothing⟩,?_⟩
  rw [List.mem_singleton]
  exact other.symm

theorem Way.step {id consumer : Nat} {chain : List Nat} (other : id ≠ parentID)
    (consumes : Consumes deps id consumer) (way : Way deps parentID consumer chain) :
    Way deps parentID id (id :: chain) := by
  obtain ⟨starts,consumers,⟨top,last,nothing⟩,avoids⟩ := way
  refine ⟨rfl,?_,⟨top,?_,nothing⟩,?_⟩
  · rw [List.isChain_cons,starts]
    refine ⟨fun first equal => ?_,consumers⟩
    obtain rfl := Option.some.inj equal
    exact consumes
  · rw [List.getLast?_cons,last]
    rfl
  · rw [List.mem_cons,not_or]
    exact ⟨other.symm,avoids⟩

theorem Way.cases {id : Nat} {chain : List Nat} (way : Way deps parentID id chain) : id ≠ parentID ∧
    (deps id = none ∨ ∃ consumer rest, Consumes deps id consumer ∧ Way deps parentID consumer rest) := by
  obtain ⟨starts,consumers,⟨top,last,nothing⟩,avoids⟩ := way
  cases chain with
  | nil => cases starts
  | cons first rest =>
    obtain rfl := Option.some.inj starts
    rw [List.mem_cons,not_or] at avoids
    refine ⟨fun same => avoids.1 same.symm,?_⟩
    cases rest with
    | nil =>
      obtain rfl := Option.some.inj last
      exact Or.inl nothing
    | cons consumer rest =>
      rw [List.isChain_cons_cons] at consumers
      refine Or.inr ⟨consumer,consumer :: rest,consumers.1,rfl,consumers.2,⟨top,?_,nothing⟩,avoids.2⟩
      rwa [List.getLast?_cons_cons] at last

theorem way_iff {id : Nat} (other : id ≠ parentID) {consumers : List Nat} (entry : deps id = some consumers) :
    (∃ chain, Way deps parentID id chain) ↔
      ∃ consumer ∈ consumers, consumer ≠ parentID ∧ ∃ chain, Way deps parentID consumer chain := by
  constructor
  · rintro ⟨chain,way⟩
    rcases way.cases.2 with nothing | ⟨consumer,rest,⟨list,listed,member⟩,way⟩
    · rw [entry] at nothing
      cases nothing
    · obtain rfl := Option.some.inj (entry.symm.trans listed)
      exact ⟨consumer,member,way.cases.1,rest,way⟩
  · rintro ⟨consumer,member,_,chain,way⟩
    exact ⟨id :: chain,way.step other ⟨consumers,entry,member⟩⟩

theorem firstTrue_any {test : Nat → Except Stop Bool} {found : Nat → Bool} {parents : List Nat}
    (each : ∀ p ∈ parents, test p = .ok (found p)) : firstTrue test parents = .ok (parents.any found) := by
  induction parents with
  | nil => rfl
  | cons p parents ih =>
    have rest := ih fun q member => each q (List.mem_cons_of_mem p member)
    rw [firstTrue,each p List.mem_cons_self,List.any_cons]
    cases found p with
    | true => rfl
    | false => exact rest

def Finds (deps : Dependencies) (parentID childID : Nat) (found : Bool) : Prop :=
  ∃ depth, ∀ more, depth ≤ more → alternateDependencyPaths parentID deps more childID = .ok found

theorem finds_top {id : Nat} (nothing : deps id = none) : Finds deps parentID id true := by
  refine ⟨1,fun more enough => ?_⟩
  obtain ⟨depth,rfl⟩ := Nat.exists_eq_add_of_le' enough
  rw [alternateDependencyPaths,nothing]

theorem finds_entry {id : Nat} {consumers : List Nat} (entry : deps id = some consumers) {found : Nat → Bool}
    (each : ∀ c ∈ consumers, c ≠ parentID → Finds deps parentID c (found c)) :
    Finds deps parentID id (consumers.any fun c => decide (c ≠ parentID) && found c) := by
  have common : ∃ depth, ∀ c ∈ consumers, c ≠ parentID →
      ∀ more, depth ≤ more → alternateDependencyPaths parentID deps more c = .ok (found c) := by
    refine common_depth (fun deeper ran other more enough => ran other more (deeper.trans enough)) fun c member => ?_
    by_cases other : c ≠ parentID
    · obtain ⟨depth,ran⟩ := each c member other
      exact ⟨depth,fun _ => ran⟩
    · exact ⟨0,fun same => absurd same other⟩
  obtain ⟨depth,ran⟩ := common
  refine ⟨depth + 1,fun more enough => ?_⟩
  obtain ⟨further,rfl⟩ := Nat.exists_eq_add_of_le' enough
  rw [← Nat.add_assoc,alternateDependencyPaths,entry]
  refine firstTrue_any fun c member => ?_
  by_cases other : c ≠ parentID
  · rw [if_pos other,ran c member other _ (Nat.le_add_left depth further)]
    simp [other]
  · rw [if_neg other]
    simp [other]

/-- Without cycles the recursion goes down a well-founded relation. -/
theorem consumes_wellFounded (finite : {id | (deps id).isSome}.Finite)
    (acyclic : ∀ id, ¬TransGen (Consumes deps) id id) : WellFounded fun consumer id => Consumes deps id consumer := by
  refine Acyclic.wellFounded_of_acyclic ?_ fun id cycle => acyclic id (transGen_swap.mp cycle)
  refine (finite.biUnion fun id _ => List.finite_toSet ((deps id).getD [])).subset ?_
  rintro consumer ⟨id,consumers,entry,member⟩
  refine Set.mem_biUnion (show id ∈ {id | (deps id).isSome} by simp [entry]) ?_
  simpa [entry] using member

/-- The search ends, and it finds a way if and only if there is one. -/
theorem alternateDependencyPaths_exact (deps : Dependencies) (finite : {id | (deps id).isSome}.Finite)
    (acyclic : ∀ id, ¬TransGen (Consumes deps) id id) (parentID childID : Nat) (distinct : parentID ≠ childID) :
    ∃ found, Finds deps parentID childID found ∧
      (found = true ↔ ∃ chain, Way deps parentID childID chain) := by
  have founded := consumes_wellFounded finite acyclic
  induction childID using founded.induction with
  | _ id ih =>
    cases entry : deps id with
    | none => exact ⟨true,finds_top entry,by simpa using ⟨[id],Way.stop distinct.symm entry⟩⟩
    | some consumers =>
      choose! found finds exact using ih
      have below {c : Nat} (member : c ∈ consumers) : Consumes deps id c := ⟨consumers,entry,member⟩
      refine ⟨_,finds_entry entry fun c member other => finds c (below member) other.symm,?_⟩
      rw [way_iff distinct.symm entry,List.any_eq_true]
      constructor
      · rintro ⟨c,member,succeeds⟩
        rw [Bool.and_eq_true,decide_eq_true_iff] at succeeds
        obtain ⟨other,succeeds⟩ := succeeds
        exact ⟨c,member,other,(exact c (below member) other.symm).mp succeeds⟩
      · rintro ⟨c,member,other,way⟩
        refine ⟨c,member,?_⟩
        rw [Bool.and_eq_true,decide_eq_true_iff]
        exact ⟨other,(exact c (below member) other.symm).mpr way⟩

/-- Module 0 has consumers 1, 2 and again 1, and module 1 has consumer 2. -/
def threeModules : Dependencies
  | 0 => some [1,2,1]
  | 1 => some [2]
  | _ => none

theorem threeModules_increasing {id consumer : Nat} (consumes : Consumes threeModules id consumer) :
    id < consumer := by
  obtain ⟨consumers,entry,member⟩ := consumes
  match id with
  | 0 =>
    obtain rfl := Option.some.inj entry
    simp only [List.mem_cons,List.not_mem_nil,or_false] at member
    omega
  | 1 =>
    obtain rfl := Option.some.inj entry
    rw [List.mem_singleton.mp member]
    exact Nat.one_lt_two
  | id + 2 => cases entry

theorem alternateDependencyPaths_threeModules : ∃ found, Finds threeModules 1 0 found ∧
    (found = true ↔ ∃ chain, Way threeModules 1 0 chain) := by
  refine alternateDependencyPaths_exact threeModules ?_ ?_ 1 0 (by decide)
  · refine (Set.finite_lt_nat 2).subset ?_
    rintro (_ | _ | id) entry
    · exact Nat.zero_lt_two
    · exact Nat.one_lt_two
    · cases entry
  · intro id cycle
    have increasing : TransGen (· < ·) id id :=
      TransGen.mono (p := (· < ·)) (fun _ _ => threeModules_increasing) id id cycle
    rw [transGen_eq_self] at increasing
    exact absurd increasing (lt_irrefl id)

end ToyMtFramework.FinishSetup
