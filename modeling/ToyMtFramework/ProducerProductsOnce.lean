import ToyMtFramework.ProducerProducts

/-! How often a producer is executed in an event. Each product asked for has a round of its own, and
a producer is executed once for each of these products: once for all of them only if there is just
one. Their queues are different, so that two executions may also overlap. -/
namespace ToyMtFramework.ProducerProducts
open Activities Transition RunQueues
open ModuleWrapper (Frame Round)
open ToyMtFramework.Schedule (ThreadType)

variable {D E : Type} [DecidableEq D] {producer : Producer D}

inductive Reacts (producer : Producer D) (sh : Shared D E) :
    Key D × Frame E → Reaction (Shared D E) (Key D × Frame E) → Prop
  | put (x : Key D) (p : D) : Reacts producer sh (x,.implDoWork) ⟨sh.put x p,[(x,.implDoWork)],[]⟩
  | wrapper (x : Key D) (f : Frame E) (r : Reaction (ModuleWrapper.Shared E) (Frame E))
      (reacts : ModuleWrapper.Reacts (kind producer x) (sh.wrappers x) f r)
      (all : none ∈ r.shared.ran →
        none ∈ (sh.wrappers x).ran ∨ ∀ p ∈ producer.puts, p ∈ sh.written x) :
      Reacts producer sh (x,f) (sh.wrapper x r)

theorem wrapper_ran {k : ModuleWrapper.Kind} {sh : ModuleWrapper.Shared E} {f : Frame E}
    {r : Reaction (ModuleWrapper.Shared E) (Frame E)} (reacts : ModuleWrapper.Reacts k sh f r) :
    (r.shared.ran = sh.ran ∧ f ≠ .implDoWork ∨ ∃ thrown, f = .implDoWork ∧ r.shared.ran = sh.ran ++ [thrown]) ∧
      r.shared.calls = sh.calls := by
  cases reacts with
  | implDoWork thrown => exact ⟨Or.inr ⟨thrown,rfl,rfl⟩,rfl⟩
  | _ => exact ⟨Or.inl ⟨rfl,by simp⟩,rfl⟩

theorem react_reacts {sh : Shared D E} {f : Key D × Frame E} {choice : Choice D E}
    {r : Reaction (Shared D E) (Key D × Frame E)} (reacted : react producer sh f choice = some r) :
    Reacts producer sh f r := by
  unfold react at reacted
  split at reacted
  · obtain ⟨_,same⟩ := Option.ite_none_right_eq_some.mp reacted
    obtain rfl := Option.some.inj same
    exact .put _ _
  · obtain ⟨all,mapped⟩ := Option.ite_none_right_eq_some.mp reacted
    obtain ⟨r,taken,rfl⟩ := Option.map_eq_some_iff.mp mapped
    exact .wrapper _ _ _ (ModuleWrapper.react_reacts taken) fun _ => Or.inr all
  · rename_i x f outcome other
    obtain ⟨r,taken,rfl⟩ := Option.map_eq_some_iff.mp reacted
    refine .wrapper _ _ _ (ModuleWrapper.react_reacts taken) fun produced => Or.inl ?_
    rcases (wrapper_ran (ModuleWrapper.react_reacts taken)).1 with ⟨same,_⟩ | ⟨thrown,rfl,_⟩
    · rw [same] at produced
      exact produced
    · cases outcome with
      | none => exact (other rfl rfl).elim
      | some e =>
        obtain rfl := Option.some.inj taken
        simpa using produced
  · cases reacted

structure Produces (producer : Producer D) (sh : Shared D E) (bag : Multiset (Key D × Frame E)) : Prop where
  rounds : ∀ x, Round .tbb (sh.wrappers x) (members x bag)
  called : ∀ f ∈ bag, sh.Requested f.1
  started : ∀ x, (sh.wrappers x).workStarted = true → sh.Requested x
  registered : ∀ x, sh.Requested x → x.2 ∈ producer.products
  written : ∀ x, sh.written x ≠ [] → (x,.implDoWork) ∈ bag ∨ (sh.wrappers x).ran ≠ []
  cached : ∀ k p, (sh.caches (k,p)).wasCached = true →
    ∃ d, (sh.caches (k,p)).value = some d ∧ p ∈ sh.written (k,d)
  kept : ∀ k d, ∀ p ∈ sh.written (k,d), (sh.caches (k,p)).wasCached = true
  all : ∀ x, none ∈ (sh.wrappers x).ran → ∀ p ∈ producer.puts, p ∈ sh.written x

section Steps
variable {sh : Shared D E} {f : Key D × Frame E} {r : Reaction (Shared D E) (Key D × Frame E)}
  {rest : Multiset (Key D × Frame E)}

theorem Produces.put {x : Key D} (produces : Produces producer sh ((x,.implDoWork) ::ₘ rest)) (p : D) :
    Produces producer (sh.put x p) ((x,.implDoWork) ::ₘ rest) := by
  refine ⟨produces.rounds,produces.called,produces.started,produces.registered,?_,?_,?_,?_⟩
  · intro y written
    by_cases same : y = x
    · subst same
      exact Or.inl (Multiset.mem_cons_self _ _)
    · simp only [Shared.put,Function.update_of_ne same] at written
      exact produces.written y written
  · intro k q cached
    by_cases same : (k,q) = (x.1,p)
    · obtain ⟨rfl,rfl⟩ := Prod.mk.inj same
      refine ⟨x.2,by simp [Shared.put],?_⟩
      simp [Shared.put]
    · simp only [Shared.put,Function.update_of_ne same] at cached ⊢
      obtain ⟨d,value,before⟩ := produces.cached k q cached
      refine ⟨d,value,?_⟩
      by_cases executed : (k,d) = x
      · subst executed
        rw [Function.update_self]
        exact List.mem_cons_of_mem p before
      · rw [Function.update_of_ne executed]
        exact before
  · intro k d q member
    by_cases same : (k,q) = (x.1,p)
    · simp only [Shared.put,same,Function.update_self]
    · simp only [Shared.put,Function.update_of_ne same] at member ⊢
      by_cases executed : (k,d) = x
      · subst executed
        rw [Function.update_self] at member
        rcases List.mem_cons.mp member with rfl | before
        · exact (same rfl).elim
        · exact produces.kept k d q before
      · rw [Function.update_of_ne executed] at member
        exact produces.kept k d q member
  · intro y ran q put
    have before := produces.all y ran q put
    by_cases same : y = x
    · subst same
      simp only [Shared.put,Function.update_self]
      exact List.mem_cons_of_mem p before
    · simp only [Shared.put,Function.update_of_ne same]
      exact before

theorem Produces.wrapper {x : Key D} {g : Frame E} {r : Reaction (ModuleWrapper.Shared E) (Frame E)}
    (produces : Produces producer sh ((x,g) ::ₘ rest))
    (reacts : ModuleWrapper.Reacts (kind producer x) (sh.wrappers x) g r)
    (all : none ∈ r.shared.ran → none ∈ (sh.wrappers x).ran ∨ ∀ p ∈ producer.puts, p ∈ sh.written x) :
    Produces producer (sh.wrapper x r).shared ((sh.wrapper x r).frames + rest) := by
  obtain ⟨ran,calls⟩ := wrapper_ran reacts
  have own : sh.Requested x := produces.called _ (Multiset.mem_cons_self _ _)
  have requested (y : Key D) (before : sh.Requested y) : (sh.wrapper x r).shared.Requested y := by
    unfold Shared.Requested at before ⊢
    by_cases same : y = x
    · subst same
      simp only [Shared.wrapper,Reaction.tag_shared,Function.update_self]
      rw [calls]
      exact before
    · simp only [Shared.wrapper,Reaction.tag_shared,Function.update_of_ne same]
      exact before
  refine ⟨?_,?_,?_,?_,?_,produces.cached,produces.kept,?_⟩
  · exact members_tag (I := fun _ => Round .tbb) (f := (x,g)) produces.rounds fun round =>
      ModuleWrapper.Round.react round reacts
  · intro h member
    rcases Multiset.mem_add.mp member with new | other
    · have tagged : h ∈ (r.tag x sh.wrappers).frames := new
      rw [Reaction.tag_frames] at tagged
      obtain ⟨_,_,rfl⟩ := List.mem_map.mp (Multiset.mem_coe.mp tagged)
      exact requested x own
    · exact requested h.1 (produces.called h (Multiset.mem_cons_of_mem other))
  · intro y started
    by_cases same : y = x
    · subst same
      exact requested y own
    · simp only [Shared.wrapper,Reaction.tag_shared,Function.update_of_ne same] at started
      exact requested y (produces.started y started)
  · intro y after
    by_cases same : y = x
    · subst same
      exact produces.registered y own
    · apply produces.registered y
      simpa [Shared.Requested,Shared.wrapper,Function.update_of_ne same] using after
  · intro y written
    by_cases same : y = x
    · subst same
      simp only [Shared.wrapper,Reaction.tag_shared,Function.update_self]
      rcases ran with ⟨kept,other⟩ | ⟨thrown,rfl,ended⟩
      · rw [kept]
        rcases produces.written y written with inside | ended
        · rcases Multiset.mem_cons.mp inside with same | inside
          · exact (other (Prod.mk.inj same).2.symm).elim
          · exact Or.inl (Multiset.mem_add.mpr (Or.inr inside))
        · exact Or.inr ended
      · rw [ended]
        exact Or.inr (by simp)
    · simp only [Shared.wrapper,Reaction.tag_shared,Function.update_of_ne same]
      rcases produces.written y written with inside | ended
      · rcases Multiset.mem_cons.mp inside with own | inside
        · exact (same (Prod.mk.inj own).1).elim
        · exact Or.inl (Multiset.mem_add.mpr (Or.inr inside))
      · exact Or.inr ended
  · intro y ended
    by_cases same : y = x
    · subst same
      simp only [Shared.wrapper,Reaction.tag_shared,Function.update_self] at ended
      rcases all ended with before | now
      · exact produces.all y before
      · exact now
    · simp only [Shared.wrapper,Reaction.tag_shared,Function.update_of_ne same] at ended
      exact produces.all y ended

theorem Produces.react (produces : Produces producer sh (f ::ₘ rest)) (reacts : Reacts producer sh f r) :
    Produces producer r.shared (r.frames + rest) := by
  cases reacts with
  | put x p => exact produces.put p
  | wrapper x g r reacts all => exact produces.wrapper reacts all

end Steps

theorem getAsync_wrappers (sh : Shared D E) (x : Key D) (t : Nat) :
    (sh.getAsync x t).wrappers = Function.update sh.wrappers x ((sh.wrappers x).call t) := rfl

theorem Produces.getAsync {sh : Shared D E} {bag : Multiset (Key D × Frame E)}
    (produces : Produces producer sh bag) {x : Key D} (product : x.2 ∈ producer.products) (t : Nat) :
    Produces producer (sh.getAsync x t) ((x,.doWorkAsync t) ::ₘ bag) := by
  have ran (y : Key D) : ((sh.getAsync x t).wrappers y).ran = (sh.wrappers y).ran ∧
      ((sh.getAsync x t).wrappers y).workStarted = (sh.wrappers y).workStarted := by
    by_cases same : y = x
    · subst same
      simp [Shared.getAsync,ModuleWrapper.Shared.call]
    · simp [Shared.getAsync,Function.update_of_ne same]
  have own : (sh.getAsync x t).Requested x := by
    simp [Shared.Requested,Shared.getAsync,ModuleWrapper.Shared.call]
  have requested (y : Key D) (before : sh.Requested y) : (sh.getAsync x t).Requested y := by
    by_cases same : y = x
    · subst same
      exact own
    · simpa [Shared.Requested,Shared.getAsync,Function.update_of_ne same] using before
  refine ⟨?_,?_,?_,?_,?_,produces.cached,produces.kept,?_⟩
  · intro y
    by_cases same : y = x
    · subst same
      rw [members_cons_self,getAsync_wrappers,Function.update_self]
      exact (produces.rounds y).call t
    · rw [members_cons_of_ne y (Ne.symm same),getAsync_wrappers,Function.update_of_ne same]
      exact produces.rounds y
  · intro f member
    rcases Multiset.mem_cons.mp member with rfl | old
    · exact own
    · exact requested f.1 (produces.called f old)
  · intro y started
    rw [(ran y).2] at started
    exact requested y (produces.started y started)
  · intro y after
    by_cases same : y = x
    · subst same
      exact product
    · apply produces.registered y
      simpa [Shared.Requested,getAsync_wrappers,Function.update_of_ne same] using after
  · intro y written
    rw [(ran y).1]
    exact (produces.written y written).imp_left (Multiset.mem_cons_of_mem)
  · intro y ended
    rw [(ran y).1] at ended
    exact produces.all y ended

theorem Produces.reset {sh : Shared D E} {bag : Multiset (Key D × Frame E)}
    (produces : Produces producer sh bag) (stream : Nat) (idle : ∀ f ∈ bag, f.1.1 ≠ stream) :
    Produces producer (sh.reset stream) bag := by
  have empty (x : Key D) (same : x.1 = stream) : members x bag = 0 := by
    rw [members_eq_zero]
    rintro f member rfl
    exact idle f member same
  refine ⟨?_,?_,?_,?_,?_,?_,?_,?_⟩
  · intro x
    by_cases same : x.1 = stream
    · have round := produces.rounds x
      rw [empty x same] at round ⊢
      simp only [Shared.reset,if_pos same]
      exact round.reset
    · simp only [Shared.reset,if_neg same]
      exact produces.rounds x
  · intro f member
    simp only [Shared.Requested,Shared.reset,if_neg (idle f member)]
    exact produces.called f member
  · intro x started
    by_cases same : x.1 = stream
    · simp [Shared.reset,same,ModuleWrapper.Shared.reset] at started
    · simp only [Shared.Requested,Shared.reset,if_neg same] at started ⊢
      exact produces.started x started
  · intro x requested
    by_cases same : x.1 = stream
    · simp [Shared.Requested,Shared.reset,same,ModuleWrapper.Shared.reset] at requested
    · simp only [Shared.Requested,Shared.reset,if_neg same] at requested
      exact produces.registered x requested
  · intro x written
    by_cases same : x.1 = stream
    · simp [Shared.reset,same] at written
    · simp only [Shared.reset,if_neg same] at written ⊢
      exact produces.written x written
  · intro k p cached
    by_cases same : k = stream
    · simp [Shared.reset,same] at cached
    · simp only [Shared.reset,if_neg same] at cached ⊢
      exact produces.cached k p cached
  · intro k d p member
    by_cases same : k = stream
    · simp [Shared.reset,same] at member
    · simp only [Shared.reset,if_neg same] at member ⊢
      exact produces.kept k d p member
  · intro x ended
    by_cases same : x.1 = stream
    · simp [Shared.reset,same,ModuleWrapper.Shared.reset] at ended
    · simp only [Shared.reset,if_neg same] at ended ⊢
      exact produces.all x ended

theorem Produces.next {s t : State D E} {a : Action D E} (produces : Produces producer s.shared s.bag)
    (taken : next producer s a = some t) : Produces producer t.shared t.bag := by
  cases a with
  | act thread choice =>
    exact Pool.step_invariant (fun _ _ _ _ _ holds reacted => holds.react (react_reacts reacted))
      produces (Queues.step_idle taken).1
  | getAsync x t =>
    simp only [ProducerProducts.next,Option.ite_none_right_eq_some,Option.some.injEq] at taken
    obtain ⟨product,rfl⟩ := taken
    rw [Pool.bag_spawn]
    exact produces.getAsync product t
  | reset stream =>
    simp only [ProducerProducts.next,Option.ite_none_right_eq_some,Option.some.injEq] at taken
    obtain ⟨idle,rfl⟩ := taken
    apply produces.reset
    intro f member
    have apart := List.all_eq_true.mp idle f (Multiset.mem_coe.mp member)
    simpa using apart

theorem initial_produces : Produces producer (initial D E).shared (initial D E).bag := by
  have bag : (initial D E).bag = 0 := rfl
  rw [bag]
  have round := ModuleWrapper.initial_round (E := E) .tbb
  refine ⟨fun x => round,?_,?_,?_,?_,?_,?_,?_⟩ <;> simp [Shared.Requested,initial,ModuleWrapper.initial]

theorem reachable_produces {s : State D E} (run : Reachable (next producer) (initial D E) s) :
    Produces producer s.shared s.bag := by
  have preserved (s : State D E) (a : Action D E) (t : State D E)
      (produces : Produces producer s.shared s.bag) (_ : True)
      (taken : ProducerProducts.next producer s a = some t) : Produces producer t.shared t.bag :=
    produces.next taken
  exact Reaches.invariant preserved run initial_produces

/-- The execution of `produce` that the wrapper of `e` has made is the only one of the event, and
the tasks that are told of no failure find all that it puts. -/
structure Shared.FromOnly (producer : Producer D) (sh : Shared D E) (stream : Nat) (e : D) : Prop where
  others : ∀ d, d ≠ e → (sh.wrappers (stream,d)).ran = []
  available : ∀ d, ∀ x ∈ (sh.wrappers (stream,d)).released, x.2 = none → ∀ p ∈ producer.puts,
    sh.caches (stream,p) = ⟨some e,true⟩

def Shared.ProducedOnce (producer : Producer D) (sh : Shared D E) (stream : Nat) : Prop :=
  ∃ e, (sh.wrappers (stream,e)).ran.length = 1 ∧ sh.FromOnly producer stream e

/-- None of the items prefetched for the wrapper has failed, in this event or an earlier one. -/
def Shared.Clean (sh : Shared D E) (x : Key D) : Prop :=
  (sh.wrappers x).failures = [] ∧ (sh.wrappers x).earlier = []

def executing : Key D × Frame E → Nat
  | (_,.implDoWork) => 1
  | _ => 0

section Outcome
variable {sh : Shared D E} {bag : Multiset (Key D × Frame E)} {stream : Nat}

omit [DecidableEq D] in
theorem ran_of_told {wrapper : ModuleWrapper.Shared E} {frames : Multiset (Frame E)}
    (round : Round .tbb wrapper frames) {x : Nat × Option E} (member : x ∈ wrapper.released)
    (told : x.2 = none) : wrapper.ran = [none] := by
  obtain ⟨same,finished,_⟩ := round.released_eq member
  rw [told,ModuleWrapper.Shared.verdict] at same
  obtain ⟨slot,body⟩ := Option.or_eq_none_iff.mp same.symm
  rw [ModuleWrapper.Shared.Finished,if_pos slot] at finished
  obtain ⟨thrown,ran⟩ := List.length_eq_one_iff.mp finished
  rw [ran] at body ⊢
  simp only [List.head?_cons,Option.join_some] at body
  rw [body]

/-- A wrapper that has executed its producer has been asked for it, and no item has failed. -/
theorem Produces.ran_requested (produces : Produces producer sh bag) {x : Key D}
    (ran : (sh.wrappers x).ran ≠ []) : sh.Requested x ∧ sh.Clean x := by
  obtain ⟨slot,started⟩ := (produces.rounds x).ran_finished ran
  obtain ⟨failures,carried⟩ := (produces.rounds x).exceptionPtr_none started slot
  exact ⟨produces.started x started,failures,List.head?_eq_none_iff.mp carried⟩

/-- What is cached comes from the only wrapper that may have executed the producer. -/
theorem Produces.fromOnly (produces : Produces producer sh bag) {e : D}
    (only : ∀ d, (sh.wrappers (stream,d)).ran ≠ [] ∨ ((stream,d),.implDoWork) ∈ bag → d = e) :
    sh.FromOnly producer stream e := by
  constructor
  · intro d other
    by_contra ran
    exact other (only d (Or.inl ran))
  · intro d x member told p put
    have ran := ran_of_told (produces.rounds (stream,d)) member told
    have written := produces.all (stream,d) (by simp [ran]) p put
    have cached := produces.kept stream d p written
    obtain ⟨source,value,inside⟩ := produces.cached stream p cached
    have executed := produces.written (stream,source) (List.ne_nil_of_mem inside)
    obtain rfl := only source executed.symm
    cases cache : sh.caches (stream,p) with
    | mk v c =>
      rw [cache] at cached value
      obtain rfl : v = some source := value
      obtain rfl : c = true := cached
      rfl

theorem Produces.ran_length (produces : Produces producer sh bag) (x : Key D) :
    (sh.wrappers x).ran.length ≤ 1 := by
  have bound := (produces.rounds x).ran
  split at bound <;> omega

/-- While all requests of an event are for one product, the producer is executed at most once. -/
theorem Produces.onlyRequested (produces : Produces producer sh bag) {e : D}
    (only : ∀ d, sh.Requested (stream,d) → d = e) : sh.FromOnly producer stream e := by
  apply produces.fromOnly
  rintro d (ran | inside)
  · exact only d (produces.ran_requested ran).1
  · exact only d (produces.called _ inside)

end Outcome

theorem Quiescent.members_empty {s : State D E} {stream : Nat} (quiescent : Quiescent s stream)
    (produces : Produces producer s.shared s.bag) (d : D) : members (stream,d) s.bag = 0 := by
  apply (produces.rounds (stream,d)).rest_empty
  intro f member
  exact quiescent (stream,d) f rfl ((mem_members _).mp member)

/-- A wrapper that was asked for its product has executed the producer in the end, or an item failed. -/
theorem Quiescent.ran_iff {s : State D E} {stream : Nat} (quiescent : Quiescent s stream)
    (produces : Produces producer s.shared s.bag) (d : D) :
    (s.shared.wrappers (stream,d)).ran ≠ [] ↔
      s.shared.Requested (stream,d) ∧ s.shared.Clean (stream,d) := by
  refine ⟨produces.ran_requested,fun ⟨requested,failures,earlier⟩ => ?_⟩
  have round := produces.rounds (stream,d)
  rw [quiescent.members_empty produces d] at round
  obtain ⟨started,finished,_⟩ := round.finished requested
  have slot : (s.shared.wrappers (stream,d)).exceptionPtr = none := by
    rw [round.exceptionPtr started,failures,ModuleWrapper.Shared.carried,earlier]
    rfl
  rw [ModuleWrapper.Shared.Finished,if_pos slot] at finished
  exact List.ne_nil_of_length_pos (by omega)

theorem Quiescent.producedOnce_iff {s : State D E} {stream : Nat} (quiescent : Quiescent s stream)
    (produces : Produces producer s.shared s.bag) :
    s.shared.ProducedOnce producer stream ↔
      ∃! d, s.shared.Requested (stream,d) ∧ s.shared.Clean (stream,d) := by
  constructor
  · rintro ⟨e,once,only⟩
    refine ⟨e,(quiescent.ran_iff produces e).mp (List.ne_nil_of_length_pos (by omega)),fun d same => ?_⟩
    by_contra other
    exact (quiescent.ran_iff produces d).mpr same (only.others d other)
  · rintro ⟨e,clean,unique⟩
    have ran := (quiescent.ran_iff produces e).mpr clean
    have bound := produces.ran_length (stream,e)
    have positive := List.length_pos_of_ne_nil ran
    refine ⟨e,by omega,produces.fromOnly ?_⟩
    rintro d (executed | inside)
    · exact unique d ((quiescent.ran_iff produces d).mp executed)
    · have empty := quiescent.members_empty produces d
      rw [members_eq_zero] at empty
      exact (empty _ inside rfl).elim

section Queue

theorem queues_kept : (queues producer : Queues (Key D × Frame E) Queue).Kept (react producer) := by
  intro sh f choice r reacted q
  cases react_reacts reacted with
  | put x p =>
    simp only [Queues.inside,queues,Reaction.frames_mk,List.append_nil,weigh_coe,List.map_cons,List.map_nil,
      List.sum_cons,List.sum_nil,Nat.add_zero]
    exact Nat.le_add_right _ _
  | wrapper x f r reacts all =>
    have frames : (sh.wrapper x r).frames = ↑((r.calls ++ r.spawned).map fun g => (x,g)) :=
      Reaction.tag_frames x sh.wrappers r
    rw [frames]
    cases reacts with
    | execute direct =>
      have none : runQueue producer x = none := by simpa [kind] using direct
      simp [Queues.inside,queues,none]
    | queued e | failed e | runModule | implDoWork thrown =>
      simp [Queues.inside,queues]
      exact le_of_eq (if_congr Iff.rfl rfl rfl)
    | _ => simp [Queues.inside,queues]

/-- The queue of a wrapper is that of its product, in the events of all streams. -/
theorem runQueue_stream (k : Nat) (d : D) : runQueue producer (k,d) = runQueue producer (0,d) := by
  unfold runQueue
  by_cases first : k = 0
  · rw [first]
  · simp only [if_neg first]
    apply Event.clone_runQueue
    intro entry member
    rcases Event.mem_addProducer member with nothing | ⟨_,routed⟩
    · cases nothing
    · exact routed

theorem runQueue_product (between : producer.threadType = .threadSafeBetweenModules) {d : D}
    (product : d ∈ producer.products) : ∃ q, runQueue producer (0,d) = some q := by
  have present := (Event.keys_addProducer (P := D) ⟨0,(),producer.threadType,false⟩ producer.products
    (⟨[]⟩,1)).1 d product
  obtain ⟨entry,member,key⟩ := List.mem_map.mp present
  change ∃ q, (setup [.producer () producer.threadType false producer.products]).first.event.runQueue ((),d) =
    some q
  unfold Event.runQueue
  cases found : (setup [.producer () producer.threadType false producer.products]).first.event.lookupMap.find?
      fun entry => entry.1 = ((),d) with
  | none =>
    have absent := List.find?_eq_none.mp found entry member
    simp [key] at absent
  | some first =>
    rcases Event.mem_addProducer (List.mem_of_find?_eq_some found) with nothing | ⟨module,routed⟩
    · cases nothing
    · rw [ModuleWrapper.Routed,module] at routed
      simp only [between] at routed
      exact routed

/-- While all requests are for one product, every execution is a task of its queue. -/
theorem Produces.executing_le_one {sh : Shared D E} {bag : Multiset (Key D × Frame E)}
    (produces : Produces producer sh bag) (serial : (queues producer : Queues (Key D × Frame E) Queue).Serial bag)
    (between : producer.threadType = .threadSafeBetweenModules)
    (one : ∀ x y, sh.Requested x → sh.Requested y → x.2 = y.2) : weigh executing bag ≤ 1 := by
  by_contra several
  obtain ⟨f,member,_⟩ := (weigh_pos_iff executing bag).mp (by omega)
  have requested := produces.called f member
  obtain ⟨q,queue⟩ := runQueue_product between (produces.registered f.1 requested)
  have inside (g : Key D × Frame E) (other : g ∈ bag) : executing g ≤ (queues producer).inside q g := by
    obtain ⟨⟨k,d⟩,frame⟩ := g
    have same : d = f.1.2 := one _ _ (produces.called _ other) requested
    have found : runQueue producer (k,d) = some q := by
      rw [runQueue_stream,same]
      exact queue
    cases frame with
    | implDoWork => simp [executing,Queues.inside,queues,found]
    | _ => exact Nat.zero_le _
  exact several (le_trans (weigh_le_of_mem inside) (serial q))

end Queue

def twoProducts : Producer Nat where
  threadType := .threadSafeBetweenModules
  getters := 0
  products := [0,1]
  puts := [0,1]
  registered := by simp

def untilPushed (k : Nat) : List (Action Nat Nat) :=
  List.replicate 4 (.act k (.go none)) ++ [.act (k + 2) (.go none)]

/-- The task of the queue that thread `k` takes up, up to the body and from there to its end. -/
def untilBody (k : Nat) : List (Action Nat Nat) :=
  [.act k (.go none),.act k (.go none)]

def untilDone (k : Nat) : List (Action Nat Nat) :=
  [.act k (.put 1),.act k (.put 0),.act k (.go none),.act k (.go none)]

/-- Product 0 alone is asked for, a second time while its producer is executing. -/
def sameProduct : List (Action Nat Nat) :=
  .getAsync (0,0) 0 :: (untilPushed 0 ++ untilBody 3 ++ .getAsync (0,0) 1 :: .act 4 (.go none) ::
    .act 4 (.go none) :: untilDone 3 ++ [.act 1 (.go none),.act 5 (.go none)])

/-- Both products are asked for, and both wrappers execute the producer. -/
def twoRequests : List (Action Nat Nat) :=
  .getAsync (0,0) 0 :: (untilPushed 0 ++ .getAsync (0,1) 1 :: untilPushed 4 ++ untilBody 3 ++ untilBody 7)

end ToyMtFramework.ProducerProducts
