import ToyMtFramework.DispatchScheduleProgress

/-! Event after event in a schedule of the Dispatch framework. The callback gets the next event while tasks
of the last one have yet to leave their queues. A group that is not empty is waited for, so nothing else is
left by then: each event begins as if it were the first, and has what it means. -/
namespace ToyMtFramework.DispatchSchedule
open Activities Transition
open Schedule (Job Wrapper Entry performers LogMeans AsSingleThreaded)
open DispatchQueues (mark mark_self)
open scoped Filter

variable {L D E : Type}

def Ending : Frame L D E → Prop
  | .taskEnds _ | .workEnds _ | .resumeRunQueue _ => True
  | _ => False

/-- The frame is what the group is entered for: it will be waited for, or is now. -/
def Attends (groups : DispatchGroups (GroupId L D)) (g : GroupId L D) : Frame L D E → Prop
  | .process _ => g = .allPathsDone
  | .requestPrefetch t | .prefetch t _ | .doProduceAsync t _ _ | .produceAsync t _ _ => g = .prefetch t.wrapper
  | .waitForGet t v _ | .notifyGet t v _ => g = .prefetch t.wrapper ∨ g = .produced v
  | .notify h _ => g = h
  | .notified h since _ => g = h ∧ since = groups.emptied h
  | _ => False

def Shared.reset (sh : Shared L D E) (eventIndex : Nat) : Shared L D E where
  groups := sh.groups
  queues := sh.queues
  requestedPrefetch := fun _ => false
  wasRun := fun _ => false
  keep := fun _ => false
  cache := fun label product => ⟨(sh.cache label product).value,false⟩
  eventIndex
  fatalJobErrorOccured := sh.fatalJobErrorOccured
  log := []
  called := []

@[simp] theorem reset_groups (sh : Shared L D E) (eventIndex : Nat) : (sh.reset eventIndex).groups = sh.groups := rfl

@[simp] theorem reset_queues (sh : Shared L D E) (eventIndex : Nat) : (sh.reset eventIndex).queues = sh.queues := rfl

/-- The schedule, and the events before with what was executed in each. -/
structure Stream (L D E : Type) where
  pool : State L D E
  finished : List (Nat × List (Entry L D E))

inductive Action where
  | act (thread seed : Nat)
  | getAndProcess (eventIndex : Nat)

variable [DecidableEq L] [DecidableEq D] {job : Job L D E}

def nextOfStream (job : Job L D E) (s : Stream L D E) : Action → Option (Stream L D E)
  | .act thread seed => (next job s.pool (thread,seed)).map fun t => {s with pool := t}
  | .getAndProcess eventIndex =>
    if true ∈ s.pool.shared.called then
      some ⟨⟨s.pool.shared.reset eventIndex,s.pool.threads ++ [[.process (List.range job.paths.length)]]⟩,
        s.finished ++ [(s.pool.shared.eventIndex,s.pool.shared.log)]⟩
    else none

section Steps
variable {plain : job.Plain} {index : Nat} {sh : Shared L D E} {f : Frame L D E} {g : GroupId L D}
  {r : Reaction (Shared L D E) (Frame L D E)} {bag rest : Multiset (Frame L D E)}

structure Attended (job : Job L D E) (sh : Shared L D E) (bag : Multiset (Frame L D E)) : Prop where
  attended : ∀ g, 0 < sh.groups.count g → ∃ f ∈ bag, Attends sh.groups g f
  noPaths : job.paths = [] → sh.groups.count .allPathsDone = 0

/-- What attends a group goes on to do so until the group is empty. -/
theorem attends_react (noPaths : job.paths = [] → sh.groups.count .allPathsDone = 0)
    (attends : Attends sh.groups g f) (reacts : Reacts job sh f r) :
    sh.groups.count g = 0 ∨ ∃ h ∈ r.frames, Attends r.shared.groups g h := by
  cases reacts with
  | noPaths none =>
    obtain rfl : g = .allPathsDone := attends
    exact Or.inl (noPaths none)
  | launched some => exact Or.inr ⟨.notify .allPathsDone .scheduleCallback,by simp,attends⟩
  | process p ps => exact Or.inr ⟨.process ps,by simp,attends⟩
  | requested t before => exact Or.inr ⟨.prefetch t [],by simp,attends⟩
  | requestPrefetch t some first => exact Or.inr ⟨.prefetch t (job.getters t.wrapper),by simp,attends⟩
  | prefetched t => exact Or.inr ⟨.notify (.prefetch t.wrapper) (.work t),by simp,attends⟩
  | cached t v gs known there => exact Or.inr ⟨.prefetch t gs,by simp,attends⟩
  | getAsync t v gs known missing => exact Or.inr ⟨.doProduceAsync t v gs,by simp,attends⟩
  | produceDone t v gs ran | produceAsync t v gs => exact Or.inr ⟨.waitForGet t v gs,by simp,Or.inl attends⟩
  | doProduceAsync t v gs unrun => exact Or.inr ⟨.produceAsync t v gs,by simp,attends⟩
  | waitForGet t v gs => exact Or.inr ⟨.notifyGet t v gs,by simp,attends⟩
  | notifyGet t v gs =>
    right
    rcases attends with rfl | rfl
    · exact ⟨.prefetch t gs,by simp,rfl⟩
    · exact ⟨.notify (.produced v) (.doneWithGet t.wrapper),by simp,rfl⟩
  | notifyNow h b empty =>
    obtain rfl : g = h := attends
    exact Or.inl empty
  | notify h b busy =>
    obtain rfl : g = h := attends
    exact Or.inr ⟨.notified g (sh.groups.emptied g) b,by simp,rfl,rfl⟩
  | notified h since b became =>
    obtain ⟨rfl,rfl⟩ := attends
    exact absurd became (Nat.lt_irrefl _)
  | _ => cases attends

/-- A group that is entered is entered by what attends it, or by what is in it already. -/
theorem attends_enter (reacts : Reacts job sh f r) (empty : sh.groups.count g = 0)
    (outside : owes g f = 0) (entered : 0 < r.shared.groups.count g) :
    ∃ h ∈ r.frames, Attends r.shared.groups g h := by
  have marked {p : GroupId L D} (some : 0 < (sh.groups.enter p).count g) : g = p := by
    rw [sh.groups.enter_count,empty,mark] at some
    split at some
    · exact (‹_ = _›).symm
    · cases some
  cases reacts with
  | process p ps => exact ⟨.process ps,by simp,marked entered⟩
  | presentPath p calm =>
    obtain rfl := marked entered
    simp [owes,mark_self] at outside
  | doPrefetchAndWork t known => exact ⟨.requestPrefetch t,by simp,marked entered⟩
  | produceAsync t v gs => exact ⟨.waitForGet t v gs,by simp,Or.inr (marked entered)⟩
  | waitForGet t v gs => exact ⟨.notifyGet t v gs,by simp,Or.inl (marked entered)⟩
  | doProduceAsyncImpl label product unrun =>
    obtain rfl := marked entered
    simp [owes,mark_self] at outside
  | leave h =>
    have less : (sh.groups.leave h).count g ≤ sh.groups.count g := by
      by_cases same : g = h
      · subst same
        simp [DispatchGroups.leave]
      · simp [DispatchGroups.leave,same]
    exact absurd (Nat.lt_of_lt_of_le entered less) (by omega)
  | _ => exact absurd entered (by simp [Shared.withQueues,Shared.addTask,Shared.ran,Shared.setValue,
      Shared.setWasRun,empty])

omit [DecidableEq L] [DecidableEq D] in
theorem attends_keep {after : Shared L D E} (same : after.groups.emptied g = sh.groups.emptied g)
    (attends : Attends sh.groups g f) : Attends after.groups g f := by
  cases f with
  | notified h since b =>
    obtain ⟨rfl,rfl⟩ := attends
    exact ⟨rfl,same.symm⟩
  | _ => exact attends

theorem noPaths_react (means : Means plain index sh f) (none : job.paths = [])
    (empty : sh.groups.count .allPathsDone = 0) (reacts : Reacts job sh f r) :
    r.shared.groups.count .allPathsDone = 0 := by
  have absent (p : Nat) (inside : p < job.paths.length) : False := by simp [none] at inside
  cases reacts with
  | process p ps => exact (absent p (means p (List.mem_cons_self ..))).elim
  | presentPath p calm => exact (absent p means).elim
  | doPrefetchAndWork t known | produceAsync t v gs | waitForGet t v gs | doProduceAsyncImpl label product unrun =>
    simpa [Shared.withGroups,DispatchGroups.enter_count,mark] using empty
  | leave h =>
    by_cases same : h = .allPathsDone
    · subst same
      simp [Shared.withGroups,DispatchGroups.leave,empty]
    · simpa [Shared.withGroups,DispatchGroups.leave,Ne.symm same] using empty
  | _ => exact empty

theorem Attended.react (balanced : Balanced owes sh.groups (f ::ₘ rest)) (means : Means plain index sh f)
    (attended : Attended job sh (f ::ₘ rest)) (reacts : Reacts job sh f r) :
    Attended job r.shared (r.frames + rest) := by
  have advances := advances_react reacts
  refine ⟨fun g some => ?_,fun none => noPaths_react means none (attended.noPaths none) reacts⟩
  have still : r.shared.groups.emptied g = sh.groups.emptied g := by
    by_contra other
    have became := advances.became g (Nat.lt_of_le_of_ne (advances.emptied g) (Ne.symm other))
    omega
  have new (found : ∃ h ∈ r.frames, Attends r.shared.groups g h) :
      ∃ h ∈ r.frames + rest, Attends r.shared.groups g h := by
    obtain ⟨h,member,attends⟩ := found
    exact ⟨h,Multiset.mem_add.mpr (Or.inl member),attends⟩
  by_cases before : 0 < sh.groups.count g
  · obtain ⟨h,member,attends⟩ := attended.attended g before
    rcases Multiset.mem_cons.mp member with rfl | old
    · rcases attends_react attended.noPaths attends reacts with empty | found
      · omega
      · exact new found
    · exact ⟨h,Multiset.mem_add.mpr (Or.inr old),attends_keep still attends⟩
  · have empty : sh.groups.count g = 0 := by omega
    have outside : owes g f = 0 := by
      have count := balanced.count g
      rw [weigh_cons] at count
      omega
    exact new (attends_enter reacts empty outside some)

end Steps

section Over
variable {plain : job.Plain} {index : Nat} {sh : Shared L D E} {f : Frame L D E} {g : GroupId L D}
  {bag : Multiset (Frame L D E)}

/-- From what a module gets to the module there is no cycle either. -/
theorem uses_wellFounded (plain : job.Plain) : WellFounded fun x w : Wrapper L D => w ∈ job.getters x := by
  refine Acyclic.wellFounded_of_acyclic ?_ fun w cycle => plain.acyclic w (Relation.transGen_swap.mp cycle)
  refine (List.finite_toSet ((job.filters.map fun m => .filter m.label) ++
    job.producers.flatMap fun m => m.products.map fun product => .producer m.label product)).subset ?_
  rintro x ⟨w,gets⟩
  obtain ⟨m,found,_⟩ := Schedule.getters_known job gets
  cases x with
  | filter label =>
    have named : m.label = label := by simpa using List.find?_some found
    exact List.mem_append_left _ (List.mem_map.mpr ⟨m,List.mem_of_find?_eq_some found,by rw [named]⟩)
  | producer label product =>
    have listed : m.label = label ∧ product ∈ m.products := by simpa using List.find?_some found
    refine List.mem_append_right _ (List.mem_flatMap.mpr ⟨m,List.mem_of_find?_eq_some found,?_⟩)
    exact List.mem_map.mpr ⟨product,listed.2,by rw [listed.1]⟩

theorem notifies_prefetch {w : Wrapper L D} {b : Block L D} (notifies : Notifies job (.prefetch w) b) :
    ∃ t, b = .work t ∧ t.wrapper = w := by
  cases b with
  | work t => exact ⟨t,rfl,(GroupId.prefetch.inj notifies).symm⟩
  | doneWithGet x =>
    obtain ⟨_,_,same⟩ := notifies
    cases same
  | scheduleCallback => cases notifies

theorem notifies_produced {v : Wrapper L D} {b : Block L D} (notifies : Notifies job (.produced v) b) :
    ∃ x, b = .doneWithGet x ∧ v ∈ job.getters x := by
  cases b with
  | work t => cases notifies
  | doneWithGet x =>
    obtain ⟨_,gets,same⟩ := notifies
    cases same
    exact ⟨x,rfl,gets⟩
  | scheduleCallback => cases notifies

theorem notifies_allPathsDone {b : Block L D} (notifies : Notifies job .allPathsDone b) :
    b = .scheduleCallback := by
  cases b with
  | work t => cases notifies
  | doneWithGet x =>
    obtain ⟨_,_,same⟩ := notifies
    cases same
  | scheduleCallback => rfl

/-- What attends a prefetch group is on the way to the work of a worker. -/
theorem attends_prefetch {w : Wrapper L D} (proper : Proper job f) (attends : Attends sh.groups (.prefetch w) f) :
    ∃ t : Worker L D, t.wrapper = w ∧ 0 < owes t.group f := by
  cases f with
  | requestPrefetch t | prefetch t gs | doProduceAsync t v gs | produceAsync t v gs =>
    cases attends
    exact ⟨t,rfl,by simp only [owes,mark_self]; omega⟩
  | waitForGet t v gs | notifyGet t v gs =>
    rcases attends with same | other
    · cases same
      exact ⟨t,rfl,by simp only [owes,mark_self]; omega⟩
    · cases other
  | notify h b =>
    cases attends
    obtain ⟨t,rfl,same⟩ := notifies_prefetch proper
    exact ⟨t,same,by simp [owes,Block.owes,mark_self]⟩
  | notified h since b =>
    obtain ⟨same,_⟩ := attends
    cases same
    obtain ⟨t,rfl,same⟩ := notifies_prefetch proper
    exact ⟨t,same,by simp [owes,Block.owes,mark_self]⟩
  | _ => cases attends

/-- What attends the group of a product is on the way to the work of a module that gets it. -/
theorem attends_produced {v : Wrapper L D} (proper : Proper job f) (attends : Attends sh.groups (.produced v) f) :
    ∃ x, v ∈ job.getters x ∧ 0 < owes (.prefetch x) f := by
  cases f with
  | waitForGet t u gs | notifyGet t u gs =>
    rcases attends with other | same
    · cases other
    · cases same
      exact ⟨t.wrapper,proper.1,by simp only [owes,mark_self]; omega⟩
  | notify h b =>
    cases attends
    obtain ⟨x,rfl,gets⟩ := notifies_produced proper
    exact ⟨x,gets,by simp [owes,Block.owes,mark_self]⟩
  | notified h since b =>
    obtain ⟨same,_⟩ := attends
    cases same
    obtain ⟨x,rfl,gets⟩ := notifies_produced proper
    exact ⟨x,gets,by simp [owes,Block.owes,mark_self]⟩
  | _ => cases attends

/-- Only the callback of the schedule waits for all paths. -/
theorem attends_allPathsDone (proper : Proper job f) (attends : Attends sh.groups .allPathsDone f) :
    calling f = 1 := by
  cases f with
  | process ps => rfl
  | waitForGet t u gs | notifyGet t u gs => rcases attends with same | same <;> cases same
  | notify h b =>
    cases attends
    obtain rfl := notifies_allPathsDone proper
    rfl
  | notified h since b =>
    obtain ⟨same,_⟩ := attends
    cases same
    obtain rfl := notifies_allPathsDone proper
    rfl
  | _ => cases attends

/-- When the callback has been called no group is entered any more. -/
theorem groups_empty (plain : job.Plain) (ordered : Ordered job sh bag) (attended : Attended job sh bag)
    (past : weigh calling bag = 0) (g : GroupId L D) : sh.groups.count g = 0 := by
  have member {g : GroupId L D} (some : 0 < sh.groups.count g) :
      ∃ f ∈ bag, Proper job f ∧ Attends sh.groups g f := by
    obtain ⟨f,member,attends⟩ := attended.attended g some
    exact ⟨f,member,ordered.proper f member,attends⟩
  have owed {f : Frame L D E} {g : GroupId L D} (member : f ∈ bag) (owes : 0 < DispatchSchedule.owes g f) :
      0 < sh.groups.count g := by
    rw [ordered.balanced.count]
    exact weigh_pos member owes
  have paths : sh.groups.count .allPathsDone = 0 := by
    by_contra some
    obtain ⟨f,present,proper,attends⟩ := member (Nat.pos_of_ne_zero some)
    have calls := weigh_eq_zero past present
    rw [attends_allPathsDone proper attends] at calls
    cases calls
  have prefetch (w : Wrapper L D) : sh.groups.count (.prefetch w) = 0 := by
    induction w using (uses_wellFounded plain).induction with
    | _ w ih =>
      by_contra some
      obtain ⟨f,present,proper,attends⟩ := member (Nat.pos_of_ne_zero some)
      obtain ⟨t,rfl,owes⟩ := attends_prefetch proper attends
      have entered := owed present owes
      cases t with
      | filterOnPath p i label => exact Nat.ne_of_gt entered paths
      | producer label product =>
        obtain ⟨h,inside,proper,attends⟩ := member entered
        obtain ⟨x,gets,owes⟩ := attends_produced proper attends
        exact Nat.ne_of_gt (owed inside owes) (ih x gets)
  cases g with
  | allPathsDone => exact paths
  | prefetch w => exact prefetch w
  | produced v =>
    by_contra some
    obtain ⟨f,present,proper,attends⟩ := member (Nat.pos_of_ne_zero some)
    obtain ⟨x,_,owes⟩ := attends_produced proper attends
    exact Nat.ne_of_gt (owed present owes) (prefetch x)

/-- What neither leaves a group nor comes to the callback is the end of a task. -/
theorem ending_of_light (calls : calling f = 0) (light : ∀ g, owes g f = 0) : Ending f := by
  cases f with
  | taskEnds q | workEnds t | resumeRunQueue t => trivial
  | process ps => cases calls
  | processPresentPath p | runAsync p | runFilterAsync p i | doNextIfSuccess p i keep success | pathCallback success =>
    have none := light .allPathsDone
    simp [owes,mark_self] at none
  | leave h =>
    have none := light h
    simp [owes,mark_self] at none
  | doProduceAsyncImpl v =>
    have none := light (.produced v)
    simp [owes,mark_self] at none
  | notify h b | notified h since b | block b =>
    cases b with
    | work t =>
      have none := light t.group
      simp [owes,Block.owes,mark_self] at none
    | doneWithGet w =>
      have none := light (.prefetch w)
      simp [owes,Block.owes,mark_self] at none
    | scheduleCallback => cases calls
  | queued n task | task task =>
    have none := light task.worker.group
    simp [owes,mark_self] at none
  | doPrefetchAndWork t | requestPrefetch t | prefetch t gs | doProduceAsync t v gs | produceAsync t v gs
  | waitForGet t v gs | notifyGet t v gs | addUnsafe t | addWork t | doWork t direct | body t direct gs values
  | put t direct puts | setWasRun t direct | worked t direct =>
    have none := light t.group
    simp [owes,mark_self] at none

/-- When the callback has been called nothing but ends of tasks is left. -/
theorem endings (plain : job.Plain) (ordered : Ordered job sh bag) (attended : Attended job sh bag)
    (past : weigh calling bag = 0) : ∀ f ∈ bag, Ending f := by
  refine fun f member => ending_of_light (weigh_eq_zero past member) fun g => ?_
  have empty := groups_empty plain ordered attended past g
  rw [ordered.balanced.count] at empty
  exact weigh_eq_zero empty member

/-- The next event begins with the groups and the queues as they are. -/
theorem Ordered.begin (ordered : Ordered job sh bag) (next : Nat) (ps : List Nat) :
    Ordered job (sh.reset next) (.process ps ::ₘ bag) := by
  obtain ⟨proper,calm,balanced,locked,turns⟩ := ordered
  refine ⟨fun f member => ?_,calm,⟨fun g => ?_,balanced.matched⟩,⟨fun q => ?_,fun q => ?_,fun q => ?_,locked.matched⟩,
    ⟨fun q n => ?_,turns.order⟩⟩
  · rcases Multiset.mem_cons.mp member with rfl | old
    · trivial
    · exact proper f old
  · simpa [owes] using balanced.count g
  · simpa [accounts,executes] using locked.running q
  · simpa [accounts,holds] using locked.suspended q
  · simpa [accounts,suspends] using locked.one q
  · rw [weigh_cons]
    exact (Nat.zero_add _).trans (turns.waiting q n)

theorem Ending.stands (ending : Ending f) : Stands job sh f := by
  cases f <;> trivial

theorem Prefetching.begin (ends : ∀ f ∈ bag, Ending f) (next : Nat) (ps : List Nat) :
    Prefetching job (sh.reset next) (.process ps ::ₘ bag) := by
  have uncached (w : Wrapper L D) : (sh.reset next).wasCached w = false := by cases w <;> rfl
  refine ⟨fun f member => ?_,fun g f member expects => ?_,fun w set => ?_,fun label product ran => ?_,fun w => ?_⟩
  · rcases Multiset.mem_cons.mp member with rfl | old
    · trivial
    · exact (ends f old).stands
  · exfalso
    rcases Multiset.mem_cons.mp member with rfl | old
    · cases expects
    · have ending := ends f old
      cases f <;> first | exact False.elim ending | cases expects
  · cases set
  · cases ran
  · have light : weigh (performed w) bag = 0 := by
      refine weigh_light fun f member => ?_
      have ending := ends f member
      cases f <;> first | rfl | exact False.elim ending
    simp [Shared.reset,performers,performed,light]

theorem Meaningful.begin (ends : ∀ f ∈ bag, Ending f) (next : Nat) :
    Meaningful plain next (sh.reset next) (.process (List.range job.paths.length) ::ₘ bag) := by
  have light : weigh DispatchSchedule.calling bag = 0 := by
    refine weigh_light fun f member => ?_
    have ending := ends f member
    cases f <;> first | rfl | exact False.elim ending
  refine ⟨⟨rfl,?_,?_,?_,?_⟩,fun f member t worker => ?_,fun f member => ?_,fun p inside => ?_,?_,?_⟩
  · simp [Shared.reset]
  · simp [Shared.reset,performers]
  · intro w there
    cases w <;> cases there
  · simp [Shared.reset,performers]
  · exfalso
    rcases Multiset.mem_cons.mp member with rfl | old
    · cases worker
    · have ending := ends f old
      cases f <;> first | exact False.elim ending | cases worker
  · rcases Multiset.mem_cons.mp member with rfl | old
    · exact fun p listed => List.mem_range.mp listed
    · have ending := ends f old
      cases f <;> trivial
  · exact Or.inl ⟨_,Multiset.mem_cons_self .. ,List.mem_range.mpr inside⟩
  · simp [DispatchSchedule.calling,light,Shared.reset]
  · simp [Shared.reset]

end Over

/-- What holds in every state of a stream: the events before have had what they mean. -/
structure Streaming (plain : job.Plain) (s : Stream L D E) : Prop where
  going : Going plain s.pool.shared.eventIndex s.pool
  attended : Attended job s.pool.shared s.pool.bag
  finished : ∀ x ∈ s.finished, LogMeans plain x.1 x.2

section Stream
variable {plain : job.Plain} {s t : Stream L D E}

theorem Streaming.called (streaming : Streaming plain s) (called : s.pool.shared.called ≠ []) :
    s.pool.shared.called = [true] ∧ LogMeans plain s.pool.shared.eventIndex s.pool.shared.log ∧
      ∀ f ∈ s.pool.bag, Ending f := by
  obtain ⟨ordered,prefetching,meaningful,_⟩ := streaming.going
  obtain ⟨once,means⟩ := meaningful.outcome ordered prefetching called
  have past := meaningful.calling
  rw [once,List.length_singleton] at past
  exact ⟨once,means,endings plain ordered streaming.attended (by omega)⟩

theorem Streaming.act {thread seed : Nat} (streaming : Streaming plain s)
    (taken : nextOfStream job s (.act thread seed) = some t) : Streaming plain t := by
  obtain ⟨pool,moved,rfl⟩ := Option.map_eq_some_iff.mp taken
  have going := (streaming.going.next _ moved).1
  have same : pool.shared.eventIndex = s.pool.shared.eventIndex := going.meaningful.right.event
  refine ⟨same ▸ going,?_,streaming.finished⟩
  obtain ⟨f,r,rest,reacted,shared,before,after,_⟩ := Pool.step_bag moved
  have balanced := streaming.going.ordered.balanced
  have attended := streaming.attended
  have means := streaming.going.meaningful.means f
  rw [before] at balanced attended means
  rw [shared,after]
  exact attended.react balanced (means (Multiset.mem_cons_self f rest)) (react_reacts reacted)

/-- The next event finds nothing of the last one but ends of tasks. -/
theorem Streaming.getAndProcess {eventIndex : Nat} (streaming : Streaming plain s)
    (taken : nextOfStream job s (.getAndProcess eventIndex) = some t) : Streaming plain t := by
  obtain ⟨success,same⟩ := Option.ite_none_right_eq_some.mp taken
  obtain rfl := Option.some.inj same
  obtain ⟨_,means,ends⟩ := streaming.called (List.ne_nil_of_mem success)
  obtain ⟨ordered,_,meaningful,alone⟩ := streaming.going
  have bag : (Pool.mk (s.pool.shared.reset eventIndex) (s.pool.threads ++
      [[Frame.process (List.range job.paths.length)]])).bag =
      .process (List.range job.paths.length) ::ₘ s.pool.bag := Pool.bag_spawn s.pool _ _
  have past := meaningful.calling
  have some := List.length_pos_iff.mpr (List.ne_nil_of_mem success)
  have empty := groups_empty plain ordered streaming.attended (by omega)
  refine ⟨⟨?_,?_,?_,?_⟩,?_,?_⟩
  · rw [bag]
    exact ordered.begin eventIndex _
  · rw [bag]
    exact Prefetching.begin ends eventIndex _
  · rw [bag]
    exact Meaningful.begin ends eventIndex
  · intro stack member f inside waits
    rcases List.mem_append.mp member with old | new
    · exact alone stack old f inside waits
    · obtain rfl := List.mem_singleton.mp new
      rw [List.mem_singleton.mp inside]
  · rw [bag]
    exact ⟨fun g entered => absurd (empty g) (Nat.ne_of_gt entered),fun _ => empty _⟩
  · intro x member
    rcases List.mem_append.mp member with old | new
    · exact streaming.finished x old
    · rw [List.mem_singleton.mp new]
      exact means

theorem Streaming.next {a : Action} (streaming : Streaming plain s) (taken : nextOfStream job s a = some t) :
    Streaming plain t := by
  cases a with
  | act thread seed => exact streaming.act taken
  | getAndProcess eventIndex => exact streaming.getAndProcess taken

theorem Ready.streaming {sh : Shared L D E} {index : Nat} (ready : Ready sh index) (plain : job.Plain) :
    Streaming plain ⟨processing job sh,[]⟩ := by
  refine ⟨?_,⟨fun g entered => ?_,fun _ => ready.count _⟩,by simp⟩
  · rw [show (processing job sh).shared.eventIndex = index from ready.eventIndex]
    exact ready.going plain
  · exact absurd (ready.count g) (Nat.ne_of_gt entered)

end Stream

/-- In a stream of events each one that is finished has had what it means and what the single-threaded
framework does in it, though the next event begins while tasks of the last have yet to end. When the
callback is called nothing else is left, and from everywhere an event can be taken on to its callback. -/
theorem stream_agrees (job : Job L D E) (plain : job.Plain) (sh : Shared L D E) (index : Nat)
    (ready : Ready sh index) (s : Stream L D E)
    (run : Reachable (nextOfStream job) ⟨processing job sh,[]⟩ s) :
    (∀ x ∈ s.finished, LogMeans plain x.1 x.2 ∧
      ∀ (seed : Nat) (unrun : SingleThreaded.State L D), SingleThreaded.Unrun unrun →
        ∀ᶠ depth in Filter.atTop, ∃ t, SingleThreaded.process job seed x.1 depth unrun = .ok t ∧
          AsSingleThreaded job x.2 t) ∧
    (s.pool.shared.called ≠ [] → s.pool.shared.called = [true] ∧
      LogMeans plain s.pool.shared.eventIndex s.pool.shared.log ∧ ∀ f ∈ s.pool.bag, Ending f) ∧
    ∃ actions t, execute (next job) s.pool actions = some t ∧ t.shared.called = [true] := by
  have streaming : Streaming plain s :=
    Reaches.invariant (fun _ _ _ streaming _ taken => Streaming.next streaming taken) run (ready.streaming plain)
  refine ⟨fun x member => ?_,streaming.called,?_⟩
  · have means := streaming.finished x member
    exact ⟨means,fun seed unrun flags => means.agrees seed flags⟩
  · have preserved (u : State L D E) (a : Nat × Nat) (v : State L D E)
        (going : Going plain s.pool.shared.eventIndex u) (taken : next job u a = some v) :
        Going plain s.pool.shared.eventIndex v := (going.next a taken).1
    obtain ⟨actions,t,ran,halted⟩ := execute_halts preserved (fun u a v going taken => (going.next a taken).2)
      s.pool streaming.going
    have going : Going plain s.pool.shared.eventIndex t :=
      Reaches.invariant (fun u a v going _ taken => preserved u a v going taken)
        (execute_reachable actions ran) streaming.going
    exact ⟨actions,t,ran,(going.halted halted).2.1⟩

open Schedule (sharedFilter sharedFilter_plain)

def Action.acts (threads : List (Nat × Nat)) : List Action :=
  (DispatchSchedule.acts threads).map fun a => .act a.1 a.2

/-- Event 4 begins while the task of the filter in event 3 has yet to leave its queue, which it does after
the second path of event 4 has begun. -/
def sharedFilterStream : List Action :=
  Action.acts [(4,0),(15,1),(9,2),(7,4),(1,8),(9,9),(3,5),(2,6),(2,7),(1,9),(4,10),(4,12),(11,13),(4,11),(4,14),
    (5,15),(2,3)] ++ [.getAndProcess 4] ++
  Action.acts [(1,16),(8,17),(6,18),(1,19),(10,20),(1,18),(3,17),(2,21),(3,17),(1,22),(1,17),(1,16),(8,24),(1,25),
    (1,24),(2,16),(2,15),(3,23),(3,28),(11,29),(1,28),(1,23),(3,26),(3,30),(7,31),(1,30),(2,27)]

set_option maxRecDepth 4096 in
theorem stream_agrees_sharedFilter : ∃ s : Stream Nat Unit Unit,
    execute (nextOfStream sharedFilter) ⟨processing sharedFilter (fresh Unit Nat Unit 3),[]⟩ sharedFilterStream =
      some s ∧ s.finished.map Prod.fst = [3] ∧ (∀ x ∈ s.finished, LogMeans sharedFilter_plain x.1 x.2) ∧
      LogMeans sharedFilter_plain 4 s.pool.shared.log := by
  have ran : (execute (nextOfStream sharedFilter) ⟨processing sharedFilter (fresh Unit Nat Unit 3),[]⟩
      sharedFilterStream).map (fun s => (s.finished.map Prod.fst,s.pool.shared.called,s.pool.shared.eventIndex)) =
      some ([3],[true],4) := by decide +kernel
  obtain ⟨s,ran,outcome⟩ := Option.map_eq_some_iff.mp ran
  obtain ⟨finished,rest⟩ := Prod.mk.inj outcome
  obtain ⟨called,index⟩ := Prod.mk.inj rest
  obtain ⟨before,current,_⟩ := stream_agrees sharedFilter sharedFilter_plain _ 3 (fresh_ready 3) s
    (execute_reachable _ ran)
  have means := (current (by simp [called])).2.1
  rw [index] at means
  exact ⟨s,ran,finished,fun x member => (before x member).1,means⟩

end ToyMtFramework.DispatchSchedule
