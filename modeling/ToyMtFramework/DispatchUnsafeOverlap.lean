import ToyMtFramework.DispatchUnsafeLocks

/-! How a thread-unsafe module is entered while its body waits in a `get`. If two of its wrappers have
different run queues, then the second wrapper finds both queues free and comes to the body as well.
So the bodies of the modules exclude each other exactly when this cannot happen. -/
namespace ToyMtFramework.DispatchUnsafe
open Activities Transition DispatchRunQueues

variable {L : Type} [DecidableEq L]

theorem react_short (sh : Shared L) (again : Bool) (f : Frame L) (r : Reaction (Shared L) (Frame L))
    (reacted : react sh f again = some r) : r.calls.length ≤ 1 := by
  cases f with
  | asked w =>
    cases reacted
    cases sh.wasRun w <;> simp
  | queued turn task =>
    obtain ⟨queues,_,rfl⟩ := Option.map_eq_some_iff.mp reacted
    simp
  | task task =>
    cases task <;> cases reacted <;> simp
  | work w =>
    cases reacted
    cases sh.wasRun w <;> simp
  | body w | getting w | workEnds w =>
    simp only [react] at reacted
    split at reacted <;> cases reacted <;> simp
  | _ =>
    cases reacted
    simp

/-- A run can come from the first state and frames to the second ones. -/
def Leads (ws : List (ModuleWrapper L)) (first second : Shared L × Multiset (Frame L)) : Prop :=
  ∀ s : State L, s.Single → s.shared = first.1 → s.bag = first.2 →
    ∃ t, Reachable (next ws) s t ∧ t.Single ∧ t.shared = second.1 ∧ t.bag = second.2

variable {ws : List (ModuleWrapper L)} {sh sh' : Shared L} {f g h : Frame L} {w : ModuleWrapper L}
  {bag rest : Multiset (Frame L)}

theorem Leads.trans {first second third : Shared L × Multiset (Frame L)} (leads : Leads ws first second)
    (onward : Leads ws second third) : Leads ws first third := by
  intro s single shared before
  obtain ⟨t,run,single,shared,before⟩ := leads s single shared before
  obtain ⟨u,further,single,shared,after⟩ := onward t single shared before
  exact ⟨u,Reaches.trans run further,single,shared,after⟩

instance : Trans (Leads ws) (Leads ws) (Leads ws) :=
  ⟨Leads.trans⟩

theorem Leads.act (again : Bool) {r : Reaction (Shared L) (Frame L)} (reacted : react sh f again = some r) :
    Leads ws (sh,f ::ₘ rest) (r.shared,r.frames + rest) := by
  rintro s single rfl before
  obtain ⟨k,t,taken,single,shared,after⟩ := single.takes before reacted (react_short s.shared again)
  exact ⟨t,(Reaches.refl s).step (.act k again) trivial taken,single,shared,after⟩

theorem Leads.calls (again : Bool) (reacted : react sh f again = some ⟨sh',[g],[]⟩) :
    Leads ws (sh,f ::ₘ rest) (sh',g ::ₘ rest) := by
  have leads : Leads ws (sh,f ::ₘ rest) _ := .act again reacted
  simpa using leads

theorem Leads.spawns (again : Bool) (reacted : react sh f again = some ⟨sh',[],[g]⟩) :
    Leads ws (sh,f ::ₘ rest) (sh',g ::ₘ rest) := by
  have leads : Leads ws (sh,f ::ₘ rest) _ := .act again reacted
  simpa using leads

theorem Leads.forks (again : Bool) (reacted : react sh f again = some ⟨sh',[g],[h]⟩) :
    Leads ws (sh,f ::ₘ rest) (sh',g ::ₘ h ::ₘ rest) := by
  have leads : Leads ws (sh,f ::ₘ rest) _ := .act again reacted
  simpa [← Multiset.cons_coe] using leads

theorem Leads.ends (again : Bool) (reacted : react sh f again = some ⟨sh',[],[]⟩) :
    Leads ws (sh,f ::ₘ rest) (sh',rest) := by
  have leads : Leads ws (sh,f ::ₘ rest) _ := .act again reacted
  simpa using leads

theorem Leads.ask (member : w ∈ ws) : Leads ws (sh,bag) (sh,.asked w ::ₘ bag) := by
  rintro s single rfl rfl
  obtain ⟨k,found⟩ := List.mem_iff_getElem?.mp member
  have taken : next ws s (.ask k) = some ⟨s.shared,s.threads ++ [[.asked w]]⟩ := by
    rw [next,found]
    rfl
  refine ⟨_,(Reaches.refl s).step (.ask k) trivial taken,?_,rfl,Pool.bag_spawn s s.shared (.asked w)⟩
  intro stack inside
  rcases List.mem_append.mp inside with old | new
  · exact single stack old
  · rw [List.mem_singleton.mp new]
    exact Nat.le_refl 1

/-- A wrapper of a thread-unsafe module comes to the body if both queues are free. -/
theorem enters (bag : Multiset (Frame L)) (member : w ∈ ws) (kind : w.module.isUnsafe = true) (apart : w.runQueue ≠ nonThreadSafeQueue)
    (own : sh.queues.Quiet w.runQueue 0) (free : sh.queues.Quiet nonThreadSafeQueue 0)
    (fresh : sh.wasRun w = false) : ∃ queues : DispatchQueues Queue,
      Leads ws (sh,bag) (sh.withQueues queues,.body w ::ₘ bag) ∧ queues.Quiet nonThreadSafeQueue 1 ∧
        ∀ q, q ≠ w.runQueue → q ≠ nonThreadSafeQueue → sh.queues.Quiet q 0 → queues.Quiet q 0 := by
  obtain ⟨first,began⟩ := own.started
  obtain ⟨_,elsewhere⟩ := own.locked began
  let locked := (first.suspend w.runQueue).finish w.runQueue
  have still : locked.Quiet nonThreadSafeQueue 0 := elsewhere _ 0 apart.symm free
  obtain ⟨second,began'⟩ := still.started
  obtain ⟨taken,elsewhere'⟩ := still.locked began'
  refine ⟨(second.suspend nonThreadSafeQueue).finish nonThreadSafeQueue,?_,taken,fun q other outer quiet =>
    elsewhere' q 0 outer (elsewhere q 0 other quiet)⟩
  calc Leads ws (sh,bag) (sh,.asked w ::ₘ bag) := .ask member
    Leads ws _ (sh,.prefetching w ::ₘ bag) := .calls false (by simp [react,fresh])
    Leads ws _ (sh.addTask (.suspendRunQueue w),sh.waits (.suspendRunQueue w) ::ₘ bag) :=
      .spawns false (by simp [react,kind])
    Leads ws _ (sh.withQueues first,.task (.suspendRunQueue w) ::ₘ bag) :=
      .calls false (Option.map_eq_some_iff.mpr ⟨first,began,rfl⟩)
    Leads ws _ (sh.withQueues (first.suspend w.runQueue),.addUnsafe w ::ₘ bag) := .calls false rfl
    Leads ws _ ((sh.withQueues (first.suspend w.runQueue)).addTask (.suspendUnsafeQueue w),.taskEnds w.runQueue ::ₘ
        (sh.withQueues locked).waits (.suspendUnsafeQueue w) ::ₘ bag) := .forks false rfl
    Leads ws _ ((sh.withQueues locked).addTask (.suspendUnsafeQueue w),
        (sh.withQueues locked).waits (.suspendUnsafeQueue w) ::ₘ bag) := .ends false rfl
    Leads ws _ (sh.withQueues second,.task (.suspendUnsafeQueue w) ::ₘ bag) :=
      .calls false (Option.map_eq_some_iff.mpr ⟨second,began',rfl⟩)
    Leads ws _ (sh.withQueues (second.suspend nonThreadSafeQueue),.addWork w ::ₘ bag) := .calls false rfl
    Leads ws _ (sh.withQueues (second.suspend nonThreadSafeQueue),.taskEnds nonThreadSafeQueue ::ₘ
        .work w ::ₘ bag) := .forks false rfl
    Leads ws _ (sh.withQueues ((second.suspend nonThreadSafeQueue).finish nonThreadSafeQueue),.work w ::ₘ bag) :=
      .ends false rfl
    Leads ws _ (sh.withQueues ((second.suspend nonThreadSafeQueue).finish nonThreadSafeQueue),.body w ::ₘ bag) :=
      .calls false (by simp [react,Shared.withQueues,fresh])

/-- While a body waits in `get`, a wrapper of the same module with another run queue comes to the body. -/
theorem overlaps {x : ModuleWrapper L} (member : w ∈ ws) (other : x ∈ ws) (same : w.module = x.module)
    (kind : w.module.isUnsafe = true) (gets : w.module.syncGets = true) (apart : w.runQueue ≠ x.runQueue)
    (own : w.runQueue ≠ nonThreadSafeQueue) (own' : x.runQueue ≠ nonThreadSafeQueue) :
    ∃ s, Reachable (next ws) (initial L) s ∧ 1 < weigh (bodyOf w.module) s.bag := by
  have quiet : ∀ q, (initial L).shared.queues.Quiet q 0 := fun q => DispatchQueues.empty_quiet q
  obtain ⟨queues,first,locked,others⟩ :=
    enters 0 member kind own (quiet w.runQueue) (quiet nonThreadSafeQueue) rfl
  let resumed := (initial L).shared.withQueues (queues.resume nonThreadSafeQueue)
  have waits : Leads ws ((initial L).shared.withQueues queues,{.body w}) (resumed,{.getting w}) :=
    .calls true (by simp [react,gets,kind,resumed,Shared.withQueues])
  have free : resumed.queues.Quiet x.runQueue 0 :=
    (others x.runQueue apart.symm own' (quiet x.runQueue)).resume_other own'
  obtain ⟨_,second,_⟩ :=
    enters {.getting w} other (by rw [← same,kind]) own' free locked.resume rfl
  obtain ⟨s,run,_,_,after⟩ := ((first.trans waits).trans second) (initial L)
    (by simp [Pool.Single,initial]) rfl rfl
  refine ⟨s,run,?_⟩
  rw [after]
  simp [bodyOf,same]

/-- The bodies of thread-unsafe modules exclude each other in every run exactly when no module whose body
gets data synchronously has wrappers with different run queues. -/
theorem exclusive_iff {P : Type} [DecidableEq P] (additions : List (Addition L P)) (numConcurrentEvents : Nat) :
    (∀ s, Reachable (next (wrappers additions numConcurrentEvents)) (initial L) s → Exclusive s) ↔
      OneQueue (wrappers additions numConcurrentEvents) := by
  constructor
  · intro exclusive w member x other same kind gets
    by_contra apart
    obtain ⟨_,_,_,_,own⟩ := mem_wrappers member
    obtain ⟨_,_,_,_,own'⟩ := mem_wrappers other
    obtain ⟨s,run,two⟩ := overlaps member other same kind gets apart (Nat.ne_of_gt own) (Nat.ne_of_gt own')
    have one := (exclusive s run).instances w.module kind
    exact absurd one (Nat.not_le_of_gt two)
  · intro one s run
    exact (reachable_ordered run).exclusive one

/-- Both products of a producer are asked for; the first body comes to its `get`, then the second one begins. -/
def twoProducts : List Action :=
  [.ask 0,.ask 1,.act 0 false,.act 0 false,.act 1 false,.act 1 false,.act 2 false,.act 2 false,.act 2 false,
    .act 4 false,.act 4 false,.act 4 false,.act 4 false,.act 5 false,.act 5 true,.act 3 false,.act 3 false,
    .act 3 false,.act 6 false,.act 6 false,.act 6 false,.act 6 false,.act 7 false]

theorem two_products_overlap : ¬∀ s, Reachable
    (next (wrappers [Addition.producer 0 .threadUnsafe true [0,1]] 1)) (initial Nat) s → Exclusive s := by
  intro exclusive
  have both : (execute (next (wrappers [Addition.producer 0 .threadUnsafe true [0,1]] 1)) (initial Nat)
      twoProducts).map (fun s => weigh (bodyOf ⟨0,0,.threadUnsafe,true⟩) s.bag) = some 2 := by decide +kernel
  obtain ⟨s,ran,two⟩ := Option.map_eq_some_iff.mp both
  have one := (exclusive s (execute_reachable twoProducts ran)).instances ⟨0,0,.threadUnsafe,true⟩ rfl
  omega

end ToyMtFramework.DispatchUnsafe
