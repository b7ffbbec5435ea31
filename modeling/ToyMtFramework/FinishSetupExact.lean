import ToyMtFramework.FinishSetupDeadlocks

/-! The set of modules that `correctPossibleDeadlocks` finds for a module. -/
namespace ToyMtFramework.FinishSetup
open EventProcessor GuardedSearch Relation

variable {L D : Type} [LinearOrder L]

/-- A module depends on another one through a module that it might get. -/
def EventProcessor.MightReach (ep : EventProcessor L D) (m p : Module L D) : Prop :=
  ∃ q, ep.MightGet m q ∧ ReflTransGen ep.Depends q p

variable {ep : EventProcessor L D} {consumers : Nat → List Nat} {start : Nat} {already : Finset Nat}

theorem EventProcessor.MightReach.step {m p q : Module L D} (reach : ep.MightReach m p)
    (depends : ep.Depends p q) : ep.MightReach m q := by
  obtain ⟨first,direct,path⟩ := reach
  exact ⟨first,direct,path.tail depends⟩

theorem EventProcessor.MightReach.path {m p : Module L D} (reach : ep.MightReach m p) :
    TransGen ep.Depends m p := by
  obtain ⟨first,direct,path⟩ := reach
  exact TransGen.head' (.inr direct) path

theorem EventProcessor.MightReach.listed {m p : Module L D} (reach : ep.MightReach m p) : p ∈ ep.modules := by
  obtain ⟨q,-,last⟩ := TransGen.tail'_iff.mp reach.path
  exact last.right

theorem checkMightGet_eq {getters : List (L × D)} (known : ∀ getter ∈ getters, (ep.find getter.1).isSome)
    (depth : Nat) (set : Finset Nat) :
    checkMightGet ep.find start already (fun id => listed (consumers id)) depth getters set =
      forEach ep.find (check consumers start already ep depth) getters set := by
  induction getters generalizing set with
  | nil => rfl
  | cons getter getters ih =>
    obtain ⟨p,found⟩ := Option.isSome_iff_exists.mp (known getter List.mem_cons_self)
    rw [checkMightGet,forEach,found]
    exact bind_congr fun set => ih (fun g member => known g (List.mem_cons_of_mem getter member)) set

/-- A search that ends has collected the marked modules, and has looked everywhere. -/
theorem checkMightGet_ran {m : Module L D} (member : m ∈ ep.modules)
    {depth : Nat} {set : Finset Nat}
    (ran : forEach ep.find (check consumers start already ep depth) m.mightGet ∅ = .ok set) :
    (∀ p, Collected ep set p → Marked consumers start already p) ∧
      (∀ p, ep.MightReach m p → Explored ep.Depends (Passed consumers start already) (Collected ep set) p) ∧
      ∀ id ∈ set, ∃ p, ep.MightReach m p ∧ p.id = id := by
  have call (getter : L × D) (own : getter ∈ m.mightGet) (p : Module L D) (looked : ep.find getter.1 = some p)
      (s t : Finset Nat) (ran : check consumers start already ep depth p s = .ok t) :
      Collects consumers start already ep (ep.MightReach m) s t ∧
        Explored ep.Depends (Passed consumers start already) (Collected ep t) p :=
    check_ran (fun p q reach => reach.step) (find_producer looked)
      ⟨p,⟨member,getter,own,looked⟩,.refl⟩ ran
  obtain ⟨kept,calls⟩ := forEach_ran Collects.refl Collects.trans
    (fun getter own p looked s t ran => (call getter own p looked s t ran).1) ran
  have collected (p : Module L D) (found : Collected ep set p) : ep.MightReach m p ∧
      Marked consumers start already p ∧ ∀ q, ep.Depends p q →
        Explored ep.Depends (Passed consumers start already) (Collected ep set) q := by
    rcases kept.added p.id found.2 with none | ⟨q,listed,same,reach,marked,below⟩
    · exact absurd none (Finset.notMem_empty _)
    · obtain rfl := id_injective listed found.1 same
      exact ⟨reach,marked,below⟩
  refine ⟨fun p found => (collected p found).2.1,?_,?_⟩
  · rintro p ⟨q,⟨-,getter,own,looked⟩,path⟩
    obtain ⟨r,s,t,same,-,ran,left⟩ := calls getter own
    obtain rfl := Option.some.inj (looked.symm.trans same)
    exact ((call getter own q looked s t ran).2.mono (Collected.grow left.grows)).reach
      (fun v found => (collected v found).2.2) path
  · intro id found
    rcases kept.added id found with none | ⟨q,-,same,reach,-⟩
    · exact absurd none (Finset.notMem_empty _)
    · exact ⟨q,reach,same⟩

theorem checkMightGet_ends (resolved : ep.Resolved) {m : Module L D} (member : m ∈ ep.modules)
    (decided : ∀ p, ep.MightReach m p → ¬p.Leaf →
      p.id ∈ already ∨ Enclosed consumers start p.id ∨ Escapes consumers start p.id)
    (founded : WellFounded fun q p => ep.MightReach m p ∧ ep.Depends p q ∧ Passed consumers start already p) :
    ∃ depth set, forEach ep.find (check consumers start already ep depth) m.mightGet ∅ = .ok set := by
  have loop : ∃ depth set, forEach ep.find (check consumers start already ep depth) m.mightGet ∅ = .ok set ∧
      True := by
    refine forEach_ends check_mono (fun getter own => ?_) trivial
    obtain ⟨p,looked,-⟩ := resolved_find resolved member (List.mem_append_right _ own)
    refine ⟨p,looked,fun set _ => ?_⟩
    obtain ⟨depth,after,ran,-⟩ := check_ends resolved (fun p q reach => reach.step) decided founded _ p
      (find_producer looked) ⟨p,⟨member,getter,own,looked⟩,.refl⟩ set (Nat.le_refl _)
    exact ⟨depth,after,ran,trivial⟩
  obtain ⟨depth,set,ran,-⟩ := loop
  exact ⟨depth,set,ran⟩

theorem dependents_finite (ep : EventProcessor L D) : {m | ∃ p, ep.Depends m p}.Finite := by
  refine (List.finite_toSet ep.modules).subset ?_
  rintro m ⟨p,depends⟩
  exact depends.left

theorem producers_finite (ep : EventProcessor L D) : {p | ∃ m, ep.Depends m p}.Finite := by
  refine (List.finite_toSet ep.modules).subset ?_
  rintro p ⟨m,depends⟩
  exact depends.right

theorem EventProcessor.Acyclic.upward (acyclic : ep.Acyclic) : WellFounded ep.Depends :=
  Acyclic.wellFounded_of_acyclic (dependents_finite ep) acyclic

theorem EventProcessor.Acyclic.downward (acyclic : ep.Acyclic) : WellFounded fun p m => ep.Depends m p :=
  Acyclic.wellFounded_of_acyclic (producers_finite ep) fun m cycle => acyclic m (transGen_swap.mp cycle)

/-- Without cycles the way up from each module is decided. -/
theorem decided_of_acyclic (acyclic : ep.Acyclic) (start : Nat) {m : Module L D} (member : m ∈ ep.modules) :
    Enclosed (FinishSetup.consumers ep) start m.id ∨ Escapes (FinishSetup.consumers ep) start m.id := by
  induction m using acyclic.upward.induction with
  | _ m ih =>
    refine decided_of_above fun parent consumes _ => ?_
    obtain ⟨q,p,depends,rfl,same⟩ := (mem_consumers ep m.id parent).mp consumes
    obtain rfl := id_injective depends.right member same
    exact ih q depends depends.left

theorem unconsumed_iff {m : Module L D} (member : m ∈ ep.modules) :
    FinishSetup.consumers ep m.id = [] ↔ ∀ q, ¬ep.Depends q m := by
  rw [List.eq_nil_iff_forall_not_mem]
  constructor
  · intro nothing q depends
    exact nothing q.id ((mem_consumers ep m.id q.id).mpr ⟨q,m,depends,rfl,rfl⟩)
  · intro nothing parent consumes
    obtain ⟨q,p,depends,-,same⟩ := (mem_consumers ep m.id parent).mp consumes
    obtain rfl := id_injective depends.right member same
    exact nothing q depends

/-- From a module to one that uses it, other than `s`. -/
def EventProcessor.UsedBy (ep : EventProcessor L D) (s m q : Module L D) : Prop :=
  ep.Depends q m ∧ q ≠ s

theorem up_of_usedBy {s m q : Module L D} (member : s ∈ ep.modules) (used : ep.UsedBy s m q) :
    Up (FinishSetup.consumers ep) s.id m.id q.id :=
  ⟨(mem_consumers ep m.id q.id).mpr ⟨q,m,used.1,rfl,rfl⟩,
    fun same => used.2 (id_injective used.1.left member same)⟩

theorem usedBy_of_up {s m : Module L D} (member : m ∈ ep.modules) {id : Nat}
    (path : ReflTransGen (Up (FinishSetup.consumers ep) s.id) m.id id) :
    ∃ q ∈ ep.modules, q.id = id ∧ ReflTransGen (ep.UsedBy s) m q := by
  induction path with
  | refl => exact ⟨m,member,rfl,.refl⟩
  | tail _ up ih =>
    obtain ⟨p,listed,rfl,used⟩ := ih
    obtain ⟨q,r,depends,rfl,same⟩ := (mem_consumers ep _ _).mp up.1
    obtain rfl := id_injective depends.right listed same
    exact ⟨q,depends.left,rfl,used.tail ⟨depends,fun equal => up.2 (congrArg Module.id equal)⟩⟩

theorem escapes_iff (acyclic : ep.Acyclic) {s m : Module L D} (starts : s ∈ ep.modules) (member : m ∈ ep.modules) :
    Escapes (FinishSetup.consumers ep) s.id m.id ↔
      ∃ top, ReflTransGen (ep.UsedBy s) m top ∧ ∀ q, ¬ep.Depends q top := by
  rw [escapes_iff_path (decided_of_acyclic acyclic s.id member)]
  constructor
  · rintro ⟨id,path,nothing⟩
    obtain ⟨top,listed,rfl,used⟩ := usedBy_of_up member path
    exact ⟨top,used,(unconsumed_iff listed).mp nothing⟩
  · rintro ⟨top,used,nothing⟩
    have path := used.lift Module.id fun p q => up_of_usedBy starts
    have listed : top ∈ ep.modules := by
      rcases ReflTransGen.cases_tail used with rfl | ⟨p,-,last⟩
      · exact member
      · exact last.1.left
    exact ⟨top.id,path,(unconsumed_iff listed).mpr nothing⟩

/-- What a module has to check: a module that reads something, that is reached by one that `s` might
get, that is not prefetched already, and that is used by others in a way that does not need `s`. -/
def EventProcessor.Endangers (ep : EventProcessor L D) (already : Finset Nat) (s m : Module L D) : Prop :=
  ep.MightReach s m ∧ ¬m.Leaf ∧ m.id ∉ already ∧
    m ≠ s ∧ ∃ top, ReflTransGen (ep.UsedBy s) m top ∧ ∀ q, ¬ep.Depends q top

theorem modulesToCheck_exact (ep : EventProcessor L D) (resolved : ep.Resolved) (acyclic : ep.Acyclic)
    (s : Module L D) (starts : s ∈ ep.modules) (already : Finset Nat) (deps : Dependencies)
    (built : addAllDependencies ep.find ep.modules (fun _ => none) = .ok deps) :
    ∃ set, (∃ depth, ∀ more, depth ≤ more →
        checkMightGet ep.find s.id already deps more s.mightGet ∅ = .ok set) ∧
      ∀ id, id ∈ set ↔ ∃ m, ep.Endangers already s m ∧ m.id = id := by
  rw [addAllDependencies_consumers resolved,Except.ok.injEq] at built
  subst built
  have marked_iff (m : Module L D) (reach : ep.MightReach s m) :
      Marked (FinishSetup.consumers ep) s.id already m ↔ ep.Endangers already s m := by
    rw [Marked,escapes_iff acyclic starts reach.listed]
    constructor
    · rintro ⟨inner,absent,escapes⟩
      exact ⟨reach,inner,absent,fun same => acyclic s (same ▸ reach.path),escapes⟩
    · rintro ⟨-,inner,absent,-,escapes⟩
      exact ⟨inner,absent,escapes⟩
  obtain ⟨depth,set,ran⟩ := checkMightGet_ends resolved starts
    (fun p reach _ => .inr (decided_of_acyclic acyclic s.id reach.listed))
    (WellFounded.mono acyclic.downward fun q p step => step.2.1)
  obtain ⟨sound,explored,reached⟩ := checkMightGet_ran starts ran
  refine ⟨set,⟨depth,fun more deeper => ?_⟩,fun id => ?_⟩
  · rw [checkMightGet_eq (fun getter own => resolved s starts getter (List.mem_append_right _ own))]
    exact forEach_check_mono deeper ran
  · constructor
    · intro found
      obtain ⟨p,reach,rfl⟩ := reached id found
      exact ⟨p,(marked_iff p reach).mp (sound p ⟨reach.listed,found⟩),rfl⟩
    · rintro ⟨m,endangers,rfl⟩
      have marked := (marked_iff m endangers.1).mpr endangers
      exact ((explored m endangers.1).cases.resolve_right marked.not_passed).2

/-- One filter might get a producer that reads another one, and a second filter reads it. -/
def sharedInput : EventProcessor Nat Nat :=
  (((EventProcessor.empty.addProducer 0 [] []).addProducer 1 [(0,0)] []).addFilter 2 [] [(1,0)]).addFilter
    3 [(1,0)] []

theorem sharedInput_resolved : sharedInput.Resolved := by
  unfold EventProcessor.Resolved
  decide

theorem modulesToCheck_exact_sharedInput :
    ∃ set, (∃ depth, ∀ more, depth ≤ more → checkMightGet sharedInput.find 2 ∅
        (fun id => listed (FinishSetup.consumers sharedInput id)) more [(1,0)] ∅ = .ok set) ∧
      ∀ id, id ∈ set ↔ ∃ m, sharedInput.Endangers ∅ ⟨2,2,[],[(1,0)]⟩ m ∧ m.id = id :=
  modulesToCheck_exact sharedInput sharedInput_resolved (acyclic_of_earlier (by decide))
    ⟨2,2,[],[(1,0)]⟩ List.mem_cons_self ∅ _ (addAllDependencies_consumers sharedInput_resolved)

example : (checkMightGet sharedInput.find 2 ∅ (fun id => listed (FinishSetup.consumers sharedInput id))
    3 [(1,0)] ∅).toOption = some {1} := by
  decide

end ToyMtFramework.FinishSetup
