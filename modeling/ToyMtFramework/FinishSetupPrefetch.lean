import ToyMtFramework.FinishSetupGraph

/-! `recursivelyCheckPrefetchItems` puts the id of a producer into the set before it
goes on to the producer, and a call for an id in the set returns at once. -/
namespace ToyMtFramework.FinishSetup
open EventProcessor Relation

variable {L D : Type} [LinearOrder L]

omit [LinearOrder L] in
theorem recursivelyCheckPrefetchItems_seen (find : L → Option (Module L D)) (depth : Nat) (m : Module L D)
    (deps : Finset Nat) : recursivelyCheckPrefetchItems find (depth + 1) m (insert m.id deps) =
      .ok (insert m.id deps) := by
  rw [recursivelyCheckPrefetchItems,if_pos (Finset.mem_insert_self m.id deps)]

omit [LinearOrder L] in
theorem forEach_insert {find : L → Option (Module L D)} {getters : List (L × D)}
    (known : ∀ getter ∈ getters, (find getter.1).isSome) (deps : Finset Nat) :
    ∃ after, forEach find (fun p deps => .ok (insert p.id deps)) getters deps = .ok after ∧
      ∀ id, id ∈ after ↔ id ∈ deps ∨ ∃ getter ∈ getters, ∃ p, find getter.1 = some p ∧ p.id = id := by
  induction getters generalizing deps with
  | nil => exact ⟨deps,rfl,fun id => by simp⟩
  | cons getter getters ih =>
    obtain ⟨p,found⟩ := Option.isSome_iff_exists.mp (known getter List.mem_cons_self)
    obtain ⟨after,ran,members⟩ := ih (fun g member => known g (List.mem_cons_of_mem getter member))
      (insert p.id deps)
    refine ⟨after,?_,fun id => ?_⟩
    · rw [forEach,found]
      exact ran
    · rw [members,Finset.mem_insert,List.exists_mem_cons_iff,found]
      simp only [Option.some.injEq,exists_eq_left']
      rw [← or_assoc,or_comm (a := id = p.id),eq_comm (a := id)]

variable {ep : EventProcessor L D}

/-- Two calls deep the recursion is at its end, with the producers of the module's own getters. -/
theorem prefetched_direct (resolved : ep.Resolved) {m : Module L D} (listed : m ∈ ep.modules) (depth : Nat) :
    ∃ set, recursivelyCheckPrefetchItems ep.find (depth + 2) m ∅ = .ok set ∧
      ∀ id, id ∈ set ↔ ∃ p, ep.Prefetches m p ∧ p.id = id := by
  have known (getter : L × D) (member : getter ∈ m.prefetchItems) : (ep.find getter.1).isSome :=
    resolved m listed getter (List.mem_append_left _ member)
  obtain ⟨set,ran,members⟩ := forEach_insert known ∅
  have direct (id : Nat) : id ∈ set ↔ ∃ p, ep.Prefetches m p ∧ p.id = id := by
    rw [members]
    constructor
    · rintro (none | ⟨getter,member,p,found,same⟩)
      · exact absurd none (Finset.notMem_empty id)
      · exact ⟨p,⟨listed,getter,member,found⟩,same⟩
    · rintro ⟨p,⟨-,getter,member,found⟩,same⟩
      exact .inr ⟨getter,member,p,found,same⟩
  refine ⟨set,?_,direct⟩
  rw [recursivelyCheckPrefetchItems,if_neg (Finset.notMem_empty m.id)]
  simp only [recursivelyCheckPrefetchItems_seen]
  split
  · exact ran
  · rename_i nothing
    rw [not_not.mp nothing] at ran
    exact ran

omit [LinearOrder L] in
theorem recursivelyCheckPrefetchItems_mono {find : L → Option (Module L D)} {depth : Nat} {m : Module L D}
    {deps after : Finset Nat} (ran : recursivelyCheckPrefetchItems find depth m deps = .ok after) :
    recursivelyCheckPrefetchItems find (depth + 1) m deps = .ok after := by
  induction depth generalizing m deps after with
  | zero => simp [recursivelyCheckPrefetchItems] at ran
  | succ depth ih =>
    rw [recursivelyCheckPrefetchItems] at ran ⊢
    split
    · rename_i seen
      rwa [if_pos seen] at ran
    · rename_i unseen
      rw [if_neg unseen] at ran
      split
      · rename_i something
        rw [if_pos something] at ran
        exact forEach_mono (fun p s t => ih) ran
      · rename_i nothing
        rwa [if_neg nothing] at ran

omit [LinearOrder L] in
theorem recursivelyCheckPrefetchItems_deeper {find : L → Option (Module L D)} {depth more : Nat}
    (deeper : depth ≤ more) {m : Module L D} {deps after : Finset Nat}
    (ran : recursivelyCheckPrefetchItems find depth m deps = .ok after) :
    recursivelyCheckPrefetchItems find more m deps = .ok after := by
  induction deeper with
  | refl => exact ran
  | step _ ih => exact recursivelyCheckPrefetchItems_mono ih

/-- The call ends with the ids of all producers that the module prefetches, itself or through others. -/
def CollectsClosure (ep : EventProcessor L D) (m : Module L D) : Prop :=
  ∃ depth set, recursivelyCheckPrefetchItems ep.find depth m ∅ = .ok set ∧
    ∀ id, id ∈ set ↔ ∃ p, TransGen ep.Prefetches m p ∧ p.id = id

theorem prefetched_eq (resolved : ep.Resolved) {m : Module L D} (listed : m ∈ ep.modules) {depth : Nat}
    {set : Finset Nat} (ran : recursivelyCheckPrefetchItems ep.find depth m ∅ = .ok set) (id : Nat) :
    id ∈ set ↔ ∃ p, ep.Prefetches m p ∧ p.id = id := by
  obtain ⟨direct,deeper,members⟩ := prefetched_direct resolved listed depth
  rw [recursivelyCheckPrefetchItems_mono (recursivelyCheckPrefetchItems_mono ran),Except.ok.injEq] at deeper
  rw [deeper]
  exact members id

theorem collectsClosure_iff (ep : EventProcessor L D) (resolved : ep.Resolved) (m : Module L D)
    (listed : m ∈ ep.modules) :
    CollectsClosure ep m ↔ ∀ p, TransGen ep.Prefetches m p → ep.Prefetches m p := by
  constructor
  · rintro ⟨depth,set,ran,closure⟩ p path
    have collected : p.id ∈ set := (closure p.id).mpr ⟨p,path,rfl⟩
    obtain ⟨q,direct,same⟩ := (prefetched_eq resolved listed ran p.id).mp collected
    have right : p ∈ ep.modules := by
      obtain ⟨r,-,last⟩ := TransGen.tail'_iff.mp path
      exact Depends.right (.inl last)
    rwa [id_injective (Depends.right (.inl direct)) right same] at direct
  · intro direct
    obtain ⟨set,ran,members⟩ := prefetched_direct resolved listed 0
    refine ⟨2,set,ran,fun id => ?_⟩
    rw [members]
    constructor
    · rintro ⟨p,step,same⟩
      exact ⟨p,TransGen.single step,same⟩
    · rintro ⟨p,path,same⟩
      exact ⟨p,direct p path,same⟩

def closedChain : EventProcessor Nat Nat :=
  ((EventProcessor.empty.addProducer 0 [] []).addProducer 1 [(0,0)] []).addFilter 2 [(1,0),(0,0)] []

theorem closedChain_resolved : closedChain.Resolved := by
  unfold EventProcessor.Resolved
  decide

theorem closedChain_reaches {p : Module Nat Nat}
    (path : TransGen closedChain.Prefetches ⟨2,2,[(1,0),(0,0)],[]⟩ p) :
    p = ⟨1,1,[(0,0)],[]⟩ ∨ p = ⟨0,0,[],[]⟩ := by
  induction path with
  | single step =>
    obtain ⟨-,getter,member,found⟩ := step
    rcases List.mem_pair.mp member with rfl | rfl
    · exact Or.inl (Option.some.inj found).symm
    · exact Or.inr (Option.some.inj found).symm
  | tail _ step ih =>
    obtain ⟨-,getter,member,found⟩ := step
    rcases ih with rfl | rfl
    · obtain rfl := List.mem_singleton.mp member
      exact Or.inr (Option.some.inj found).symm
    · cases member

/-- The filter of `closedChain` has all that it needs among its own getters. -/
theorem collectsClosure_iff_closedChain : CollectsClosure closedChain ⟨2,2,[(1,0),(0,0)],[]⟩ := by
  have listed : (⟨2,2,[(1,0),(0,0)],[]⟩ : Module Nat Nat) ∈ closedChain.modules := List.mem_cons_self
  refine (collectsClosure_iff closedChain closedChain_resolved _ listed).mpr fun p path => ?_
  rcases closedChain_reaches path with rfl | rfl
  · exact ⟨listed,(1,0),List.mem_cons_self,rfl⟩
  · exact ⟨listed,(0,0),List.mem_cons_of_mem _ List.mem_cons_self,rfl⟩

def chain : EventProcessor Nat Nat :=
  ((EventProcessor.empty.addProducer 0 [] []).addProducer 1 [(0,0)] []).addFilter 2 [(1,0)] []

theorem chain_resolved : chain.Resolved := by
  unfold EventProcessor.Resolved
  decide

theorem chain_acyclic : chain.Acyclic :=
  acyclic_of_earlier (by decide)

/-- The producer at the end of the chain is left out. -/
theorem chain_unclosed : chain.Resolved ∧ chain.Acyclic ∧
    ∃ m ∈ chain.modules, ¬CollectsClosure chain m := by
  refine ⟨chain_resolved,chain_acyclic,⟨2,2,[(1,0)],[]⟩,List.mem_cons_self,?_⟩
  rintro ⟨depth,set,ran,closure⟩
  have filter : (⟨2,2,[(1,0)],[]⟩ : Module Nat Nat) ∈ chain.modules := List.mem_cons_self
  have first : chain.Prefetches ⟨2,2,[(1,0)],[]⟩ ⟨1,1,[(0,0)],[]⟩ := ⟨filter,(1,0),List.mem_cons_self,rfl⟩
  have second : chain.Prefetches ⟨1,1,[(0,0)],[]⟩ ⟨0,0,[],[]⟩ :=
    ⟨find_producer (show chain.find 1 = some _ from rfl),(0,0),List.mem_cons_self,rfl⟩
  have collected : 0 ∈ set := (closure 0).mpr ⟨_,(TransGen.single first).tail second,rfl⟩
  obtain ⟨p,⟨-,getter,member,found⟩,same⟩ := (prefetched_eq chain_resolved filter ran 0).mp collected
  obtain rfl := List.mem_singleton.mp member
  have other : some p = some ⟨1,1,[(0,0)],[]⟩ := found.symm
  rw [Option.some.injEq] at other
  rw [other] at same
  exact absurd same (by decide)

end ToyMtFramework.FinishSetup
