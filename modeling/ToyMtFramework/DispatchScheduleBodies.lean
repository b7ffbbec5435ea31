import ToyMtFramework.DispatchSchedulePrefetch
import ToyMtFramework.ScheduleAgreement

/-! The bodies of an event in the Dispatch framework, in every order of the steps. What a body gets is
there, a module is executed once at most, and thread-unsafe modules exclude each other; no group is
left and no queue resumed too often. -/
namespace ToyMtFramework.DispatchSchedule
open Activities Transition
open Schedule (Job Wrapper performers)
open Schedule.Loop (PutsAll)

variable {L D E : Type} [DecidableEq L] [DecidableEq D] {job : Job L D E}

def inBody (modules : Wrapper L D → Bool) : Frame L D E → Nat
  | .body t _ _ _ => (modules t.wrapper).toNat
  | _ => 0

/-- What holds in every state of an event. -/
theorem reachable_prefetching {sh : Shared L D E} {index : Nat} (putsAll : PutsAll job) (ready : Ready sh index)
    {s : State L D E} (run : Reachable (next job) (processing job sh) s) :
    Ordered job s.shared s.bag ∧ Prefetching job s.shared s.bag := by
  have start : Ordered job (processing job sh).shared (processing job sh).bag ∧
      Prefetching job (processing job sh).shared (processing job sh).bag :=
    ⟨ready.ordered,ready.prefetching⟩
  have preserved (s : State L D E) (a : Nat × Nat) (t : State L D E)
      (holds : Ordered job s.shared s.bag ∧ Prefetching job s.shared s.bag) (_ : True)
      (taken : next job s a = some t) : Ordered job t.shared t.bag ∧ Prefetching job t.shared t.bag := by
    refine Pool.step_invariant (I := fun sh bag => Ordered job sh bag ∧ Prefetching job sh bag) ?_ holds taken
    intro sh f choice r rest holds reacted
    have reacts := react_reacts reacted
    exact ⟨holds.1.react reacts,holds.2.react putsAll holds.1 reacts⟩
  exact Reaches.invariant preserved run start

section Bodies
variable {sh : Shared L D E} {bag : Multiset (Frame L D E)}

/-- What a body has left behind is put by the worker that executes. -/
theorem Prefetching.performed_le (prefetching : Prefetching job sh bag) (w : Wrapper L D) :
    ∀ f ∈ bag, performed w f ≤ working w f := by
  intro f member
  have stands := prefetching.stands f member
  cases f with
  | put t direct puts | setWasRun t direct =>
    obtain ⟨rfl,_⟩ := stands
    exact Nat.le_refl _
  | _ => exact Nat.zero_le _

theorem Prefetching.bodies_once (ordered : Ordered job sh bag) (prefetching : Prefetching job sh bag) :
    (performers sh.log).Nodup := by
  refine List.nodup_iff_count_le_one.mpr fun w => ?_
  have once := prefetching.once w
  have one := (weigh_le_of_mem (prefetching.performed_le w)).trans (ordered.working_le_one w)
  cases ran : sh.wasRun w with
  | false =>
    simp only [ran,Bool.toNat_false] at once
    omega
  | true =>
    have none : weigh (performed w) bag = 0 := by
      refine weigh_light fun f member => ?_
      have stands := prefetching.stands f member
      cases f with
      | put t direct puts | setWasRun t direct =>
        obtain ⟨_,unrun,_⟩ := stands
        simp only [performed]
        rw [if_neg]
        rintro rfl
        simp [unrun] at ran
      | _ => rfl
    simp only [ran,none,Bool.toNat_true] at once
    omega

/-- Where a body is executed its module has not been run before. -/
theorem Prefetching.body_first (ordered : Ordered job sh bag) (prefetching : Prefetching job sh bag)
    {t : Worker L D} {direct : Bool} {getters : List (Wrapper L D)} {values : List Int}
    (member : .body t direct getters values ∈ bag) : t.wrapper ∉ performers sh.log := by
  obtain ⟨rfl,unrun,_⟩ := prefetching.stands _ member
  obtain ⟨rest,rfl⟩ := Multiset.exists_cons_of_mem member
  have once := prefetching.once t.wrapper
  have one := ordered.working_le_one t.wrapper
  have le := weigh_le_of_mem fun f inside =>
    prefetching.performed_le t.wrapper f (Multiset.mem_cons_of_mem inside)
  rw [weigh_cons] at one once
  simp only [working,if_true] at one
  simp only [unrun,performed,Bool.toNat_false] at once
  rw [← List.count_eq_zero]
  omega

/-- The body of a wrapper is not executed twice at a time. -/
theorem Prefetching.bodies_alone (ordered : Ordered job sh bag) (prefetching : Prefetching job sh bag)
    (w : Wrapper L D) : weigh (inBody fun v => v = w) bag ≤ 1 := by
  refine (weigh_le_of_mem fun f member => ?_).trans (ordered.working_le_one w)
  have stands := prefetching.stands f member
  cases f with
  | body t direct gs values =>
    obtain ⟨rfl,_⟩ := stands
    by_cases same : t.wrapper = w <;> simp [inBody,working,same]
  | _ => exact Nat.zero_le _

/-- The bodies of thread-unsafe modules hold the queue of all of them. -/
theorem Prefetching.unsafe_alone (ordered : Ordered job sh bag) (prefetching : Prefetching job sh bag) :
    weigh (inBody (isUnsafe job)) bag ≤ 1 := by
  refine ordered.locked.held_le_one (q := .nonThreadSafe) fun f member => ?_
  have stands := prefetching.stands f member
  cases f with
  | body t direct gs values =>
    obtain ⟨rfl,_⟩ := stands
    cases kind : isUnsafe job t.wrapper
    · simp [inBody,kind]
    · simp [inBody,kind,accounts,holds,holding,DispatchQueues.mark_self]
  | _ => exact Nat.zero_le _

end Bodies

/-- Whatever the threads do in an event, each module is executed once at most, with all that it gets
cached before, and thread-unsafe modules one at a time. -/
theorem bodies_safe (job : Job L D E) (putsAll : PutsAll job) (sh : Shared L D E) (index : Nat)
    (ready : Ready sh index) (s : State L D E) (run : Reachable (next job) (processing job sh) s) :
    (performers s.shared.log).Nodup ∧
    (∀ t direct getters values, .body t direct getters values ∈ s.bag →
      t.wrapper ∉ performers s.shared.log ∧ ∀ g ∈ getters, s.shared.wasCached g = true) ∧
    (∀ w, weigh (inBody fun v => v = w) s.bag ≤ 1) ∧ weigh (inBody (isUnsafe job)) s.bag ≤ 1 ∧
    s.shared.groups.overLeft = false ∧ s.shared.queues.overResumed = false ∧
    s.shared.fatalJobErrorOccured = false := by
  obtain ⟨ordered,prefetching⟩ := reachable_prefetching putsAll ready run
  refine ⟨prefetching.bodies_once ordered,fun t direct getters values member => ⟨?_,fun g needed => ?_⟩,
    prefetching.bodies_alone ordered,prefetching.unsafe_alone ordered,ordered.balanced.matched,
    ordered.locked.matched,ordered.calm⟩
  · exact prefetching.body_first ordered member
  · obtain ⟨_,_,_,fetched,inside⟩ := prefetching.stands _ member
    exact fetched g (inside g needed)

open Schedule (sharedFilter)

theorem sharedFilter_putsAll : PutsAll sharedFilter := by
  simp [PutsAll,sharedFilter]

/-- Both paths have asked for the filter; the first is in its body and about to get. -/
def sharedFilterBody : List (Nat × Nat) :=
  acts [(4,0),(15,1),(9,2),(7,4),(1,8),(9,9),(3,5),(2,6),(2,7),(1,9),(4,10),(4,12),(1,13)]

set_option maxRecDepth 4096 in
theorem bodies_safe_sharedFilter : ∃ s,
    execute (next sharedFilter) (processing sharedFilter (fresh Unit Nat Unit 3)) sharedFilterBody = some s ∧
      .filter 0 ∉ performers s.shared.log ∧ s.shared.wasCached (.producer 1 ()) = true ∧
      weigh (inBody (isUnsafe sharedFilter)) s.bag ≤ 1 := by
  have ran : (execute (next sharedFilter) (processing sharedFilter (fresh Unit Nat Unit 3))
      sharedFilterBody).map (fun s => s.threads[13]?) =
      some (some [.body (.filterOnPath 0 0 0) false [.producer 1 ()] []]) := by rfl
  obtain ⟨s,ran,last⟩ := Option.map_eq_some_iff.mp ran
  have inside : .body (.filterOnPath 0 0 0) false [.producer 1 ()] [] ∈ s.bag :=
    List.mem_flatten.mpr ⟨_,List.mem_of_getElem? last,List.mem_singleton.mpr rfl⟩
  obtain ⟨_,bodies,_,alone,_⟩ := bodies_safe sharedFilter sharedFilter_putsAll _ 3 (fresh_ready 3) s
    (execute_reachable _ ran)
  obtain ⟨first,cached⟩ := bodies _ _ _ _ inside
  exact ⟨s,ran,first,cached _ (List.mem_singleton.mpr rfl),alone⟩

end ToyMtFramework.DispatchSchedule
