import ToyMtFramework.FinishSetup
import ToyMtFramework.Core.Acyclic
import ToyMtFramework.Core.GuardedSearch

/-! The graph of the modules, and what the loops and recursions of `finishSetup` do on it
when every label is the label of a producer. -/
namespace ToyMtFramework.FinishSetup
open GuardedSearch

variable {L D : Type} [LinearOrder L]

namespace EventProcessor
variable (ep : EventProcessor L D)

def Prefetches (m p : Module L D) : Prop :=
  m ∈ ep.modules ∧ ∃ getter ∈ m.prefetchItems, ep.find getter.1 = some p

def MightGet (m p : Module L D) : Prop :=
  m ∈ ep.modules ∧ ∃ getter ∈ m.mightGet, ep.find getter.1 = some p

def Depends (m p : Module L D) : Prop :=
  ep.Prefetches m p ∨ ep.MightGet m p

def Resolved : Prop :=
  ∀ m ∈ ep.modules, ∀ getter ∈ m.prefetchItems ++ m.mightGet, (ep.find getter.1).isSome

def Acyclic : Prop :=
  ∀ m, ¬Relation.TransGen ep.Depends m m

end EventProcessor

def added (find : L → Option (Module L D)) (dependent : Nat) (getters : List (L × D)) (id : Nat) : List Nat :=
  getters.flatMap fun getter => if (find getter.1).map (·.id) = some id then [dependent] else []

def consumers (ep : EventProcessor L D) (id : Nat) : List Nat :=
  ep.modules.flatMap fun m => added ep.find m.id (m.prefetchItems ++ m.mightGet) id

open EventProcessor
variable {ep : EventProcessor L D}

theorem find_producer {label : L} {p : Module L D} (found : ep.find label = some p) : p ∈ ep.modules :=
  List.mem_append_right _ (List.mem_of_find?_eq_some found)

theorem id_injective {m p : Module L D} (first : m ∈ ep.modules) (second : p ∈ ep.modules)
    (same : m.id = p.id) : m = p :=
  List.inj_on_of_nodup_map ep.ids first second same

theorem EventProcessor.Depends.left {m p : Module L D} (depends : ep.Depends m p) : m ∈ ep.modules := by
  rcases depends with ⟨listed,-⟩ | ⟨listed,-⟩ <;> exact listed

theorem EventProcessor.Depends.right {m p : Module L D} (depends : ep.Depends m p) : p ∈ ep.modules := by
  rcases depends with ⟨-,getter,-,found⟩ | ⟨-,getter,-,found⟩ <;> exact find_producer found

theorem depends_iff (ep : EventProcessor L D) (m p : Module L D) : ep.Depends m p ↔
    m ∈ ep.modules ∧ ∃ getter ∈ m.prefetchItems ++ m.mightGet, ep.find getter.1 = some p := by
  simp only [Depends,Prefetches,MightGet,List.mem_append,or_and_right,exists_or,and_or_left]

theorem mem_consumers (ep : EventProcessor L D) (id parent : Nat) :
    parent ∈ consumers ep id ↔ ∃ m p, ep.Depends m p ∧ m.id = parent ∧ p.id = id := by
  simp only [consumers,added,List.mem_flatMap,depends_iff]
  constructor
  · rintro ⟨m,listed,getter,member,chosen⟩
    split at chosen
    · rename_i same
      obtain ⟨p,found,rfl⟩ := Option.map_eq_some_iff.mp same
      exact ⟨m,p,⟨listed,getter,member,found⟩,(List.mem_singleton.mp chosen).symm,rfl⟩
    · exact absurd chosen List.not_mem_nil
  · rintro ⟨m,p,⟨listed,getter,member,found⟩,rfl,rfl⟩
    refine ⟨m,listed,getter,member,?_⟩
    rw [if_pos (by rw [found,Option.map_some])]
    exact List.mem_singleton_self _

/-- There is no cycle when every module uses only such as have been registered before it. -/
theorem acyclic_of_earlier (earlier : ∀ m ∈ ep.modules, ∀ getter ∈ m.prefetchItems ++ m.mightGet,
    ∀ p ∈ ep.find getter.1, p.id < m.id) : ep.Acyclic := by
  have below {m p : Module L D} (path : Relation.TransGen ep.Depends m p) : p.id < m.id := by
    have step {m p : Module L D} (depends : ep.Depends m p) : p.id < m.id := by
      obtain ⟨listed,getter,member,found⟩ := (depends_iff ep m p).mp depends
      exact earlier m listed getter member p found
    induction path with
    | single last => exact step last
    | tail _ last ih => exact (step last).trans ih
  exact fun m cycle => Nat.lt_irrefl _ (below cycle)

section Loop
variable {find : L → Option (Module L D)} {S : Type}

omit [LinearOrder L] in
/-- A call for each getter, and what each call keeps is kept from the start of the loop to its end. -/
theorem forEach_ran {Kept : S → S → Prop} (reflexive : ∀ s, Kept s s)
    (transitive : ∀ s t u, Kept s t → Kept t u → Kept s u)
    {action : Module L D → S → Except Stop S} {getters : List (L × D)} {s t : S}
    (each : ∀ getter ∈ getters, ∀ p, find getter.1 = some p → ∀ s t, action p s = .ok t → Kept s t)
    (ran : forEach find action getters s = .ok t) :
    Kept s t ∧ ∀ getter ∈ getters, ∃ p before after, find getter.1 = some p ∧
      Kept s before ∧ action p before = .ok after ∧ Kept after t := by
  induction getters generalizing s with
  | nil =>
    rw [forEach,Except.ok.injEq] at ran
    subst ran
    exact ⟨reflexive s,fun getter member => absurd member List.not_mem_nil⟩
  | cons getter getters ih =>
    rw [forEach] at ran
    cases found : find getter.1 with
    | none => simp [found] at ran
    | some p =>
      cases acted : action p s with
      | error stop => simp [found,acted,bind,Except.bind] at ran
      | ok middle =>
        simp only [found,acted,bind,Except.bind] at ran
        have first := each getter List.mem_cons_self p found s middle acted
        obtain ⟨rest,calls⟩ := ih (fun g member => each g (List.mem_cons_of_mem getter member)) ran
        refine ⟨transitive _ _ _ first rest,?_⟩
        intro g member
        rcases List.mem_cons.mp member with rfl | later
        · exact ⟨p,s,middle,found,reflexive s,acted,rest⟩
        · obtain ⟨q,before,after,looked,kept,call,left⟩ := calls g later
          exact ⟨q,before,after,looked,transitive _ _ _ first kept,call,left⟩

omit [LinearOrder L] in
theorem forEach_mono {action more : Module L D → S → Except Stop S}
    (grows : ∀ p s t, action p s = .ok t → more p s = .ok t) {getters : List (L × D)} {s t : S}
    (ran : forEach find action getters s = .ok t) : forEach find more getters s = .ok t := by
  induction getters generalizing s with
  | nil => exact ran
  | cons getter getters ih =>
    rw [forEach] at ran ⊢
    cases found : find getter.1 with
    | none => simp [found] at ran
    | some p =>
      cases acted : action p s with
      | error stop => simp [found,acted,bind,Except.bind] at ran
      | ok middle =>
        simp only [found,acted,bind,Except.bind] at ran
        simp only [grows p s middle acted,bind,Except.bind]
        exact ih ran

omit [LinearOrder L] in
/-- The loop stops for an unknown label or where one of its calls does. -/
theorem forEach_error {action : Module L D → S → Except Stop S} {P : Stop → Prop} (unknown : P .badLookup)
    (each : ∀ p s stop, action p s = .error stop → P stop) {getters : List (L × D)} {s : S} {stop : Stop}
    (ran : forEach find action getters s = .error stop) : P stop := by
  induction getters generalizing s with
  | nil => simp [forEach] at ran
  | cons getter getters ih =>
    rw [forEach] at ran
    cases found : find getter.1 with
    | none =>
      simp only [found,Except.error.injEq] at ran
      exact ran ▸ unknown
    | some p =>
      cases acted : action p s with
      | error first =>
        simp only [found,acted,bind,Except.bind,Except.error.injEq] at ran
        exact ran ▸ each p s first acted
      | ok middle =>
        simp only [found,acted,bind,Except.bind] at ran
        exact ih ran

omit [LinearOrder L] in
/-- The loop ends when each of its calls does, in the states that the calls leave. -/
theorem forEach_ends {action : Nat → Module L D → S → Except Stop S}
    (grows : ∀ depth p s t, action depth p s = .ok t → action (depth + 1) p s = .ok t)
    {Inv : S → Prop} {getters : List (L × D)}
    (each : ∀ getter ∈ getters, ∃ p, find getter.1 = some p ∧
      ∀ s, Inv s → ∃ depth t, action depth p s = .ok t ∧ Inv t) {s : S} (inv : Inv s) :
    ∃ depth t, forEach find (action depth) getters s = .ok t ∧ Inv t := by
  have mono (p : Module L D) (s t : S) {depth more : Nat} (deeper : depth ≤ more)
      (ran : action depth p s = .ok t) : action more p s = .ok t := by
    induction deeper with
    | refl => exact ran
    | step _ ih => exact grows _ p s t ih
  induction getters generalizing s with
  | nil => exact ⟨0,s,rfl,inv⟩
  | cons getter getters ih =>
    obtain ⟨p,found,call⟩ := each getter List.mem_cons_self
    obtain ⟨depth,middle,acted,kept⟩ := call s inv
    obtain ⟨more,t,ran,last⟩ := ih (fun g member => each g (List.mem_cons_of_mem getter member)) kept
    refine ⟨max depth more,t,?_,last⟩
    rw [forEach,found]
    simp only [mono p s middle (Nat.le_max_left depth more) acted,bind,Except.bind]
    exact forEach_mono (fun q a b => mono q a b (Nat.le_max_right depth more)) ran

end Loop

def listed (ids : List Nat) : Option (List Nat) :=
  if ids = [] then none else some ids

theorem push_listed {deps : Dependencies} {lists : Nat → List Nat}
    (same : ∀ id, deps id = listed (lists id)) (id dependent other : Nat) :
    push deps id dependent other = listed (lists other ++ if id = other then [dependent] else []) := by
  by_cases equal : id = other
  · subst equal
    rw [push,Function.update_self,same,if_pos rfl,listed,listed,if_neg (List.append_ne_nil_of_right_ne_nil _ (List.cons_ne_nil _ _))]
    by_cases nothing : lists id = []
    · rw [if_pos nothing,nothing,Option.getD_none]
    · rw [if_neg nothing,Option.getD_some]
  · rw [push,Function.update_of_ne (Ne.symm equal),same,if_neg equal,List.append_nil]

section Dependents
variable {find : L → Option (Module L D)}

omit [LinearOrder L] in
theorem forEach_push (dependent : Nat) {getters : List (L × D)}
    (known : ∀ getter ∈ getters, (find getter.1).isSome) {deps : Dependencies} {lists : Nat → List Nat} (same : ∀ id, deps id = listed (lists id)) :
    ∃ after, forEach find (fun producer deps => .ok (push deps producer.id dependent)) getters deps = .ok after ∧
      ∀ id, after id = listed (lists id ++ added find dependent getters id) := by
  induction getters generalizing deps lists with
  | nil =>
    refine ⟨deps,rfl,fun id => ?_⟩
    rw [same,added,List.flatMap_nil,List.append_nil]
  | cons getter getters ih =>
    obtain ⟨p,found⟩ := Option.isSome_iff_exists.mp (known getter List.mem_cons_self)
    obtain ⟨after,ran,final⟩ := ih (fun g member => known g (List.mem_cons_of_mem getter member))
      (push_listed same p.id dependent)
    refine ⟨after,?_,fun id => ?_⟩
    · rw [forEach,found]
      exact ran
    · rw [final,added,added,List.flatMap_cons,found,Option.map_some,List.append_assoc]
      simp only [Option.some.injEq]

omit [LinearOrder L] in
theorem addDependencies_listed {m : Module L D} (known : ∀ getter ∈ m.prefetchItems ++ m.mightGet, (find getter.1).isSome)
    {deps : Dependencies} {lists : Nat → List Nat} (same : ∀ id, deps id = listed (lists id)) :
    ∃ after, addDependencies find m deps = .ok after ∧
      ∀ id, after id = listed (lists id ++ added find m.id (m.prefetchItems ++ m.mightGet) id) := by
  obtain ⟨middle,first,halfway⟩ := forEach_push m.id
    (fun g member => known g (List.mem_append_left _ member)) same
  obtain ⟨after,second,final⟩ := forEach_push m.id
    (fun g member => known g (List.mem_append_right _ member)) halfway
  refine ⟨after,?_,fun id => ?_⟩
  · simp only [addDependencies,first,bind,Except.bind]
    exact second
  · rw [final,List.append_assoc,added,added,added,List.flatMap_append]

omit [LinearOrder L] in
theorem addAllDependencies_listed {ms : List (Module L D)}
    (known : ∀ m ∈ ms, ∀ getter ∈ m.prefetchItems ++ m.mightGet, (find getter.1).isSome)
    {deps : Dependencies} (lists : Nat → List Nat) (same : ∀ id, deps id = listed (lists id)) :
    ∃ after, addAllDependencies find ms deps = .ok after ∧ ∀ id, after id =
      listed (lists id ++ ms.flatMap fun m => added find m.id (m.prefetchItems ++ m.mightGet) id) := by
  induction ms generalizing deps lists with
  | nil =>
    refine ⟨deps,rfl,fun id => ?_⟩
    rw [same,List.flatMap_nil,List.append_nil]
  | cons m ms ih =>
    obtain ⟨middle,first,halfway⟩ := addDependencies_listed (known m List.mem_cons_self) same
    obtain ⟨after,rest,final⟩ := ih (fun m member => known m (List.mem_cons_of_mem _ member)) _ halfway
    refine ⟨after,?_,fun id => ?_⟩
    · simp only [addAllDependencies,first,bind,Except.bind]
      exact rest
    · rw [final,List.flatMap_cons,List.append_assoc]

end Dependents

/-- With known labels the map holds the consumers of each module that has one. -/
theorem addAllDependencies_consumers (resolved : ep.Resolved) :
    addAllDependencies ep.find ep.modules (fun _ => none) = .ok fun id => listed (consumers ep id) := by
  have nothing (id : Nat) : (none : Option (List Nat)) = listed [] := rfl
  obtain ⟨after,ran,final⟩ := addAllDependencies_listed resolved (fun _ => []) nothing
  refine ran.trans ?_
  exact congrArg Except.ok (funext final)

omit [LinearOrder L] in
theorem forEach_pure (find : L → Option (Module L D)) {S : Type} (action : Module L D → S → S)
    (getters : List (L × D)) (s : S) :
    (∃ t, forEach find (fun p s => .ok (action p s)) getters s = .ok t) ∧
        (∀ getter ∈ getters, (find getter.1).isSome) ∨
      forEach find (fun p s => .ok (action p s)) getters s = .error .badLookup := by
  induction getters generalizing s with
  | nil => exact .inl ⟨⟨s,rfl⟩,fun getter member => absurd member List.not_mem_nil⟩
  | cons getter getters ih =>
    rw [forEach]
    cases found : find getter.1 with
    | none => exact .inr rfl
    | some p =>
      refine (ih (action p s)).imp_left ?_
      rintro ⟨ran,known⟩
      exact ⟨ran,List.forall_mem_cons.mpr ⟨by rw [found]; rfl,known⟩⟩

omit [LinearOrder L] in
theorem addAllDependencies_unresolved {find : L → Option (Module L D)} (ms : List (Module L D))
    (deps : Dependencies) (unknown : ¬∀ m ∈ ms, ∀ getter ∈ m.prefetchItems ++ m.mightGet, (find getter.1).isSome) :
    addAllDependencies find ms deps = .error .badLookup := by
  induction ms generalizing deps with
  | nil => exact absurd (fun m member => absurd member List.not_mem_nil) unknown
  | cons m ms ih =>
    simp only [addAllDependencies,addDependencies]
    rcases forEach_pure find (fun p deps => push deps p.id m.id) m.prefetchItems deps with
      ⟨⟨middle,first⟩,known⟩ | failed
    · rcases forEach_pure find (fun p deps => push deps p.id m.id) m.mightGet middle with
        ⟨⟨after,second⟩,more⟩ | failed
      · simp only [first,second,bind,Except.bind]
        refine ih after fun all => unknown (List.forall_mem_cons.mpr ⟨?_,all⟩)
        exact fun getter member => (List.mem_append.mp member).elim (known getter) (more getter)
      · simp only [first,failed,bind,Except.bind]
    · simp only [failed,bind,Except.bind]

end ToyMtFramework.FinishSetup
