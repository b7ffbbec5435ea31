import Mathlib.Data.Finset.Insert
import Mathlib.Data.Finset.Sort
import Mathlib.Data.List.Pairwise
import Mathlib.Logic.Function.Basic

/-! `EventProcessor::finishSetup`: which of the modules that a module might get are a
danger to it. The code is the same for TBB and for OpenMP. Its recursions follow the
labels that the modules have registered, to whatever depth these lead, so they are
given a depth; the printed text is left out. -/
namespace ToyMtFramework.FinishSetup

structure Module (L D : Type) where
  id : Nat
  label : L
  prefetchItems : List (L × D)
  mightGet : List (L × D)

/-- Why the setup does not end: the result of an unsuccessful lookup is used, an assertion fails, or
the depth is used up. -/
inductive Stop where
  | badLookup
  | assertionFailed
  | tooDeep
  deriving DecidableEq

variable {L D : Type} [LinearOrder L]

/-- The modules registered so far. A `std::map` holds the producers in the order of their labels. -/
structure EventProcessor (L D : Type) [LinearOrder L] where
  nextModuleID : Nat
  filters : List (Module L D)
  producers : List (Module L D)
  ids : ((filters ++ producers).map (·.id)).Nodup
  used : ∀ m ∈ filters ++ producers, m.id < nextModuleID
  labels : (producers.map (·.label)).Pairwise (· < ·)

namespace EventProcessor

def modules (ep : EventProcessor L D) : List (Module L D) :=
  ep.filters ++ ep.producers

def find (ep : EventProcessor L D) (label : L) : Option (Module L D) :=
  ep.producers.find? (·.label = label)

def empty : EventProcessor L D where
  nextModuleID := 0
  filters := []
  producers := []
  ids := List.nodup_nil
  used := by simp
  labels := List.Pairwise.nil

theorem fresh_id (ep : EventProcessor L D) : ep.nextModuleID ∉ (ep.filters ++ ep.producers).map (·.id) := by
  intro member
  obtain ⟨m,listed,same⟩ := List.mem_map.mp member
  exact absurd same (ep.used m listed).ne

def addFilter (ep : EventProcessor L D) (label : L) (prefetchItems mightGet : List (L × D)) :
    EventProcessor L D where
  nextModuleID := ep.nextModuleID + 1
  filters := ep.filters ++ [⟨ep.nextModuleID,label,prefetchItems,mightGet⟩]
  producers := ep.producers
  ids := by
    have distinct := List.nodup_cons.mpr ⟨ep.fresh_id,ep.ids⟩
    refine List.Perm.nodup ?_ distinct
    simp only [List.map_append,List.map_cons,List.append_assoc,List.singleton_append]
    exact List.perm_middle.symm
  used m listed := by
    simp only [List.append_assoc,List.mem_append,List.mem_singleton] at listed
    rcases listed with filter | rfl | producer
    · exact Nat.lt_succ_of_lt (ep.used m (List.mem_append_left _ filter))
    · exact Nat.lt_succ_self _
    · exact Nat.lt_succ_of_lt (ep.used m (List.mem_append_right _ producer))
  labels := ep.labels

def assign (m : Module L D) (producers : List (Module L D)) : List (Module L D) :=
  producers.filter (·.label < m.label) ++ m :: producers.filter (m.label < ·.label)

theorem assign_perm (m : Module L D) (producers : List (Module L D)) :
    (assign m producers).Perm (m :: producers.filter (·.label ≠ m.label)) := by
  refine List.perm_middle.trans (List.Perm.cons m ?_)
  induction producers with
  | nil => exact List.Perm.refl _
  | cons p producers ih =>
    rcases lt_trichotomy p.label m.label with less | same | greater
    · simpa [less,less.not_gt,less.ne] using ih
    · simpa [same] using ih
    · simpa [greater,greater.not_gt,greater.ne'] using List.perm_middle.trans (List.Perm.cons p ih)

def addProducer (ep : EventProcessor L D) (label : L) (prefetchItems mightGet : List (L × D)) :
    EventProcessor L D where
  nextModuleID := ep.nextModuleID + 1
  filters := ep.filters
  producers := assign ⟨ep.nextModuleID,label,prefetchItems,mightGet⟩ ep.producers
  ids := by
    have within := (List.filter_sublist (p := fun p => p.label ≠ label) (l := ep.producers)).append_left ep.filters
    have distinct := List.nodup_cons.mpr
      ⟨fun member => ep.fresh_id ((within.map (·.id)).mem member),ep.ids.sublist (within.map (·.id))⟩
    have same := ((assign_perm ⟨ep.nextModuleID,label,prefetchItems,mightGet⟩ ep.producers).append_left
      ep.filters).trans List.perm_middle
    exact (same.map Module.id).symm.nodup distinct
  used m listed := by
    rcases List.mem_append.mp listed with filter | producer
    · exact Nat.lt_succ_of_lt (ep.used m (List.mem_append_left _ filter))
    · rcases List.mem_cons.mp ((assign_perm _ _).mem_iff.mp producer) with rfl | old
      · exact Nat.lt_succ_self _
      · exact Nat.lt_succ_of_lt (ep.used m (List.mem_append_right _ (List.mem_of_mem_filter old)))
  labels := by
    rw [assign,List.map_append,List.map_cons,List.pairwise_append,List.pairwise_cons]
    refine ⟨ep.labels.sublist (List.filter_sublist.map _),⟨?_,ep.labels.sublist (List.filter_sublist.map _)⟩,?_⟩
    · intro greater member
      obtain ⟨p,kept,rfl⟩ := List.mem_map.mp member
      exact of_decide_eq_true (List.mem_filter.mp kept).2
    · intro less member greater above
      obtain ⟨p,kept,rfl⟩ := List.mem_map.mp member
      have below : p.label < label := of_decide_eq_true (List.mem_filter.mp kept).2
      rcases List.mem_cons.mp above with rfl | later
      · exact below
      · obtain ⟨q,kept,rfl⟩ := List.mem_map.mp later
        exact below.trans (of_decide_eq_true (List.mem_filter.mp kept).2)

end EventProcessor

section Setup
variable (find : L → Option (Module L D))

/-- What the loops do with the producer of each getter; the result of the lookup is not looked at. -/
def forEach {S : Type} (action : Module L D → S → Except Stop S) :
    List (L × D) → S → Except Stop S
  | [], s => .ok s
  | getter :: getters, s =>
    match find getter.1 with
    | none => .error .badLookup
    | some producer => do
      let s ← action producer s
      forEach action getters s

abbrev Dependencies := Nat → Option (List Nat)

def push (deps : Dependencies) (id dependent : Nat) : Dependencies :=
  Function.update deps id (some ((deps id).getD [] ++ [dependent]))

def addDependencies (m : Module L D) (deps : Dependencies) : Except Stop Dependencies := do
  let deps ← forEach find (fun producer deps => .ok (push deps producer.id m.id)) m.prefetchItems deps
  forEach find (fun producer deps => .ok (push deps producer.id m.id)) m.mightGet deps

def addAllDependencies : List (Module L D) → Dependencies → Except Stop Dependencies
  | [], deps => .ok deps
  | m :: ms, deps => do
    let deps ← addDependencies find m deps
    addAllDependencies ms deps

def firstTrue (test : Nat → Except Stop Bool) : List Nat → Except Stop Bool
  | [] => .ok false
  | parent :: parents => do
    if ← test parent then return true
    else firstTrue test parents

def alternateDependencyPaths (parentID : Nat) (deps : Dependencies) : Nat → Nat → Except Stop Bool
  | 0, _ => .error .tooDeep
  | depth + 1, childID =>
    match deps childID with
    | none => .ok true
    | some parents =>
      firstTrue (fun parent =>
        if parent ≠ parentID then alternateDependencyPaths parentID deps depth parent
        else .ok false) parents

def isToCheck (startID : Nat) (alreadyPrefetched : Finset Nat) (deps : Dependencies) (depth : Nat)
    (id : Nat) : Except Stop Bool :=
  if id ∉ alreadyPrefetched then alternateDependencyPaths startID deps depth id else .ok false

def recursivelyCheckGetItems (startID : Nat) (alreadyPrefetched : Finset Nat) (deps : Dependencies) :
    Nat → Module L D → Finset Nat → Except Stop (Finset Nat)
  | 0, _, _ => .error .tooDeep
  | depth + 1, m, toCheck =>
    if m.mightGet = [] ∧ m.prefetchItems = [] then .ok toCheck
    else if m.id ∈ toCheck then .ok toCheck
    else do
      let found ← isToCheck startID alreadyPrefetched deps depth m.id
      let toCheck ← forEach find
        (recursivelyCheckGetItems startID alreadyPrefetched deps depth) m.mightGet
        (if found then insert m.id toCheck else toCheck)
      forEach find (recursivelyCheckGetItems startID alreadyPrefetched deps depth) m.prefetchItems toCheck

def recursivelyCheckPrefetchItems : Nat → Module L D → Finset Nat → Except Stop (Finset Nat)
  | 0, _, _ => .error .tooDeep
  | depth + 1, m, deps =>
    if m.id ∈ deps then .ok deps
    else if m.prefetchItems ≠ [] then
      forEach find (fun producer deps =>
        recursivelyCheckPrefetchItems depth producer (insert producer.id deps)) m.prefetchItems deps
    else .ok deps

/-- The loop of `correctPossibleDeadlocks`, the only one with an assertion. -/
def checkMightGet (startID : Nat) (alreadyPrefetched : Finset Nat) (deps : Dependencies) (depth : Nat) :
    List (L × D) → Finset Nat → Except Stop (Finset Nat)
  | [], toCheck => .ok toCheck
  | getter :: getters, toCheck =>
    match find getter.1 with
    | none => .error .assertionFailed
    | some producer => do
      let toCheck ← recursivelyCheckGetItems find startID alreadyPrefetched deps depth producer toCheck
      checkMightGet startID alreadyPrefetched deps depth getters toCheck

/-- The ids that `setDependentModuleToCheck` gets. -/
def correctPossibleDeadlocks (deps : Dependencies) (depth : Nat) (m : Module L D) :
    Except Stop (List Nat) := do
  let modulesAlreadyPrefetching ← recursivelyCheckPrefetchItems find depth m ∅
  let modulesToCheck ← checkMightGet find m.id modulesAlreadyPrefetching deps depth m.mightGet ∅
  return modulesToCheck.sort (· ≤ ·)

def correctAll (deps : Dependencies) (depth : Nat) :
    List (Module L D) → Except Stop (List (Nat × List Nat))
  | [] => .ok []
  | m :: ms => do
    let toCheck ← correctPossibleDeadlocks find deps depth m
    let rest ← correctAll deps depth ms
    return (m.id,toCheck) :: rest

end Setup

/-- For each module the ids it has to check, filters before producers. -/
def finishSetup (depth : Nat) (ep : EventProcessor L D) : Except Stop (List (Nat × List Nat)) := do
  let deps ← addAllDependencies ep.find ep.modules fun _ => none
  correctAll ep.find deps depth ep.modules

end ToyMtFramework.FinishSetup
