import ToyMtFramework.Core.Halting
import ToyMtFramework.DispatchScheduleAgreement

/-! Every event of the Dispatch framework comes to its end. What a module has yet to do is bounded by what
it gets, so no run is longer than a bound that the job has. Where no thread can act nothing is left: the
tasks in the queues could be started, and the groups would be waited for along what modules get. -/
namespace ToyMtFramework.DispatchSchedule
open Activities Transition
open Schedule (Job Wrapper performers LogMeans)
open DispatchQueues (mark mark_self)

variable {L D E : Type} [DecidableEq L] [DecidableEq D] {job : Job L D E}

section Effort
variable (plain : job.Plain)

/-- More than the steps of a producer that is run, with what it gets. -/
noncomputable def cost : Wrapper L D → Nat :=
  Acyclic.evaluate job.getters (fun _ costs => 26 + (costs.map fun n => 10 + n).sum) plain.acyclic.below

theorem cost_eq (w : Wrapper L D) :
    cost plain w = 26 + ((job.getters w).map fun v => 10 + cost plain v).sum := by
  rw [cost,Acyclic.evaluate_eq,List.map_map]
  rfl

noncomputable def pathEffort (p i : Nat) : Nat :=
  3 + (((job.path p).drop i).map fun label => cost plain (.filter label)).sum

noncomputable def Worker.after : Worker L D → Nat
  | .filterOnPath p i _ => pathEffort plain p (i + 1) + 1
  | .producer _ _ => 1

noncomputable def Worker.effort (t : Worker L D) : Nat :=
  t.after plain + (job.getters t.wrapper).length + 8

noncomputable def getEffort (getters : List (Wrapper L D)) : Nat :=
  (getters.map fun v => 9 + cost plain v).sum

/-- More than the steps that the frame leads to. -/
noncomputable def effort : Frame L D E → Nat
  | .process ps => (ps.map fun p => pathEffort plain p 0 + 4).sum + 4
  | .processPresentPath p => pathEffort plain p 0 + 3
  | .runAsync p => pathEffort plain p 0 + 1
  | .runFilterAsync p i => pathEffort plain p i
  | .doPrefetchAndWork t => t.effort plain + getEffort plain (job.getters t.wrapper) + 15
  | .requestPrefetch t => t.effort plain + getEffort plain (job.getters t.wrapper) + 14
  | .prefetch t gs => t.effort plain + getEffort plain gs + 13
  | .doProduceAsync t g gs => t.effort plain + getEffort plain gs + cost plain g + 21
  | .produceAsync t g gs => t.effort plain + getEffort plain gs + cost plain g + 20
  | .waitForGet t _ gs => t.effort plain + getEffort plain gs + 19
  | .notifyGet t _ gs => t.effort plain + getEffort plain gs + 18
  | .doProduceAsyncImpl g => cost plain g
  | .notify _ (.work t) => t.effort plain + 11
  | .notified _ _ (.work t) => t.effort plain + 10
  | .block (.work t) => t.effort plain + 9
  | .notify _ (.doneWithGet _) => 4
  | .notified _ _ (.doneWithGet _) => 3
  | .block (.doneWithGet _) => 2
  | .notify _ .scheduleCallback => 3
  | .notified _ _ .scheduleCallback => 2
  | .block .scheduleCallback => 1
  | .leave _ => 1
  | .queued _ (.suspendRunQueue t) => t.effort plain + 8
  | .task (.suspendRunQueue t) => t.effort plain + 7
  | .addUnsafe t => t.effort plain + 6
  | .queued _ (.suspendUnsafeQueue t) => t.effort plain + 4
  | .task (.suspendUnsafeQueue t) => t.effort plain + 3
  | .addWork t => t.effort plain + 2
  | .queued _ (.doWorkTask t) => t.effort plain + 2
  | .task (.doWorkTask t) => t.effort plain + 1
  | .taskEnds _ => 1
  | .doWork t _ => t.effort plain
  | .body t _ gs _ => t.after plain + gs.length + 7
  | .put t _ puts => t.after plain + puts.length + 5
  | .setWasRun t _ => t.after plain + 4
  | .worked t _ => t.after plain + 3
  | .workEnds _ => 2
  | .resumeRunQueue _ => 1
  | .doNextIfSuccess p i _ _ => pathEffort plain p (i + 1) + 1
  | .pathCallback _ => 2

end Effort

section Steps
variable {plain : job.Plain} {index : Nat} {sh : Shared L D E} {f : Frame L D E}
  {r : Reaction (Shared L D E) (Frame L D E)} {bag rest : Multiset (Frame L D E)}

theorem pathEffort_step (plain : job.Plain) {p i : Nat} {label : L} (at_i : (job.path p)[i]? = some label) :
    pathEffort plain p i = pathEffort plain p (i + 1) + cost plain (.filter label) := by
  obtain ⟨inside,here⟩ := List.getElem?_eq_some_iff.mp at_i
  rw [pathEffort,List.drop_eq_getElem_cons inside,here,List.map_cons,List.sum_cons,pathEffort]
  omega

/-- What a module gets is part of what it costs. -/
theorem cost_getters (plain : job.Plain) (w : Wrapper L D) :
    cost plain w = 26 + (job.getters w).length + getEffort plain (job.getters w) := by
  have sum (gs : List (Wrapper L D)) :
      (gs.map fun v => 10 + cost plain v).sum = gs.length + getEffort plain gs := by
    induction gs with
    | nil => rfl
    | cons g gs ih =>
      simp only [List.map_cons,List.sum_cons,List.length_cons,getEffort] at ih ⊢
      omega
  rw [cost_eq,sum,Nat.add_assoc]

/-- A worker leaves at most one product. -/
theorem puts_length (plain : job.Plain) {t : Worker L D} (known : Known job t) (seed index : Nat)
    (values : List Int) : (t.puts (job.perform t.wrapper seed index values)).length ≤ 1 := by
  cases t with
  | filterOnPath p i label => exact Nat.zero_le _
  | producer label product => exact Nat.le_of_eq (congrArg List.length (plain.puts known seed index values))

/-- Every reaction leaves less to do. -/
theorem effort_react (plain : job.Plain) (proper : Proper job f) (stands : Stands job sh f)
    (reacts : Reacts job sh f r) : weigh (effort plain) r.frames < effort plain f := by
  have path (p i : Nat) : 3 ≤ pathEffort plain p i := Nat.le_add_right 3 _
  cases reacts with
  | filterDone p i label calm at_i ran | filterAsync p i label calm at_i unrun =>
    have step := pathEffort_step plain at_i
    have getters := cost_getters plain (.filter label)
    simp [effort,Worker.effort,Worker.after,Worker.wrapper]
    omega
  | doProduceAsyncImpl label product unrun =>
    have getters := cost_getters plain (.producer label product)
    simp [effort,Worker.effort,Worker.after,Worker.wrapper]
    omega
  | alreadyProduced label product ran =>
    have getters := cost_getters plain (.producer label product)
    simp [effort]
    omega
  | notifyNow g b empty | notify g b busy | notified g since b became => cases b <;> simp [effort]
  | addTask t task kind =>
    subst kind
    cases isUnsafe job t.wrapper <;> simp [effort,Shared.waits]
  | queued turn task queues began => cases task <;> simp [effort]
  | body t direct values seed returned =>
    obtain ⟨_,_,known,_⟩ := stands
    have short := puts_length plain known seed sh.eventIndex values
    simp [effort]
    omega
  | worked t direct => cases t <;> cases direct <;> simp [effort,Shared.informs,Worker.after]
  | emptyPath p empty =>
    have some := path p 0
    simp [effort]
    omega
  | skipFilter p i fatal =>
    have some := path p i
    simp [effort]
    omega
  | pathEnds p i keep last =>
    have some := path p (i + 1)
    simp [effort]
    omega
  | noSuccess p i keep => cases proper
  | _ =>
    simp [effort,getEffort,Worker.effort,Shared.waits]
    try omega

def Parked : Frame L D E → Prop
  | .notified _ _ _ | .queued _ _ => True
  | _ => False

/-- Nothing that is called waits: the groups and the queues are given their blocks. -/
theorem calls_go (reacts : Reacts job sh f r) : ∀ g ∈ r.calls, ¬Parked g := by
  cases reacts with
  | worked t direct => cases t <;> cases direct <;> simp [Parked,Shared.informs]
  | _ => simp [Parked]

/-- Whatever does not wait can act. -/
theorem goes_on (plain : job.Plain) (proper : Proper job f) (stands : Stands job sh f)
    (wanted : ∀ t, f.worker = some t → Wanted plain index sh t) (means : Means plain index sh f)
    (goes : ¬Parked f) : ∃ r, react job sh f 0 = some r := by
  have known {t : Worker L D} (worker : f.worker = some t) : (job.module t.wrapper).isNone = false := by
    have some := plain.needed_known (wanted t worker).needed
    simpa [Option.isSome_iff_ne_none] using some
  have getter_known {g w : Wrapper L D} (gets : g ∈ job.getters w) : (job.module g).isNone = false := by
    have some := plain.getter_known gets
    simpa [Option.isSome_iff_ne_none] using some
  cases f with
  | process ps =>
    cases ps with
    | nil =>
      by_cases none : job.paths = []
      · exact ⟨_,if_pos none⟩
      · exact ⟨_,if_neg none⟩
    | cons p ps => exact ⟨_,rfl⟩
  | processPresentPath p =>
    by_cases fatal : sh.fatalJobErrorOccured = true
    · exact ⟨_,if_pos fatal⟩
    · exact ⟨_,if_neg fatal⟩
  | runFilterAsync p i =>
    have here : (job.path p)[i]? = some (job.path p)[i] := List.getElem?_eq_getElem proper
    simp only [react,here]
    split
    · exact ⟨_,rfl⟩
    · split <;> exact ⟨_,rfl⟩
  | doPrefetchAndWork t => simp [react,known rfl]
  | requestPrefetch t =>
    simp only [react]
    split <;> exact ⟨_,rfl⟩
  | prefetch t gs =>
    cases gs with
    | nil => exact ⟨_,rfl⟩
    | cons g gs =>
      simp only [react,getter_known (proper g (List.mem_cons_self ..))]
      split
      · contradiction
      · split <;> exact ⟨_,rfl⟩
  | doProduceAsyncImpl g =>
    obtain ⟨t,named⟩ := Option.isSome_iff_exists.mp proper
    simp only [react,named]
    split <;> exact ⟨_,rfl⟩
  | notify g b =>
    simp only [react]
    split <;> exact ⟨_,rfl⟩
  | block b => cases b <;> exact ⟨_,rfl⟩
  | task task => cases task <;> exact ⟨_,rfl⟩
  | doWork t direct =>
    simp only [react]
    split <;> exact ⟨_,rfl⟩
  | body t direct gs values =>
    cases gs with
    | nil => simp [react,plain.thrown]
    | cons g gs =>
      obtain ⟨_,_,_,fetched,inside⟩ := stands
      have there := inside g (List.mem_cons_self ..)
      simp [react,fetched g there]
  | put t direct puts =>
    cases puts with
    | nil => exact ⟨_,rfl⟩
    | cons put puts =>
      obtain ⟨label,same,_⟩ := means.2 put (List.mem_cons_self ..)
      cases t with
      | filterOnPath p i other => cases same
      | producer other product =>
        cases same
        have some : (job.find label put.1).isNone = false := known rfl
        simp [react,some]
  | workEnds t =>
    simp only [react]
    split <;> exact ⟨_,rfl⟩
  | doNextIfSuccess p i keep success =>
    obtain rfl : success = true := proper
    simp only [react]
    split <;> exact ⟨_,rfl⟩
  | notified g since b | queued turn task => exact absurd trivial goes
  | _ => exact ⟨_,rfl⟩

def Stuck (job : Job L D E) (sh : Shared L D E) (bag : Multiset (Frame L D E)) : Prop :=
  ∀ f ∈ bag, Parked f ∧ ∀ seed, react job sh f seed = none

/-- A queue with a task, but none that executes or holds it, can start the task. -/
theorem Stuck.unqueued (ordered : Ordered job sh bag) (stuck : Stuck job sh bag) {q : QueueId L D}
    (free : weigh (holds job q) bag = 0) (n : Nat) (task : Task L D) (member : .queued n task ∈ bag) :
    task.queue ≠ q := by
  rintro rfl
  have waiting := ordered.turns.waiting task.queue n
  have some : 0 < weigh (turn task.queue n) bag := weigh_pos member (by simp [turn])
  rw [waiting] at some
  split at some
  · obtain ⟨f,present,next⟩ := ordered.turns.next_waits (q := task.queue) (by omega)
    obtain ⟨parked,still⟩ := stuck f present
    cases f with
    | queued m other =>
      simp only [turn] at next
      split at next
      · obtain ⟨same,rfl⟩ := ‹_ ∧ _›
        have idle : sh.queues.running task.queue = false := by
          have running := ordered.locked.running task.queue
          have light : weigh ((accounts job).executes task.queue) bag = 0 := by
            refine weigh_light fun g inside => ?_
            obtain ⟨parked,_⟩ := stuck g inside
            cases g <;> first | rfl | cases parked
          rw [light] at running
          exact Bool.toNat_eq_zero.mp running.symm
        have unheld : sh.queues.suspended task.queue = 0 :=
          (ordered.locked.suspended task.queue).symm.trans free
        have starts := still 0
        simp only [react,Option.map_eq_none_iff,DispatchQueues.start,same] at starts
        rw [if_pos ⟨trivial,idle,unheld⟩] at starts
        cases starts
      · cases next
    | _ => cases next
  · cases some

/-- So no task is in a queue: first none in the queue of all thread-unsafe modules, whose tasks hold
the others. -/
theorem Stuck.queues_empty (ordered : Ordered job sh bag) (stuck : Stuck job sh bag) (n : Nat) (task : Task L D)
    (member : .queued n task ∈ bag) : False := by
  have shared (m : Nat) (other : Task L D) (inside : .queued m other ∈ bag) : other.queue ≠ .nonThreadSafe := by
    refine stuck.unqueued ordered (weigh_light fun g present => ?_) m other inside
    obtain ⟨parked,_⟩ := stuck g present
    cases g with
    | queued k t => cases t <;> simp [holds,mark]
    | notified g since b => rfl
    | _ => cases parked
  refine stuck.unqueued ordered (weigh_light fun g present => ?_) n task member rfl
  obtain ⟨parked,_⟩ := stuck g present
  cases g with
  | queued k t =>
    cases t with
    | suspendUnsafeQueue t => exact absurd rfl (shared k _ present)
    | _ => rfl
  | notified g since b => rfl
  | _ => cases parked

/-- A group that is waited for is left by a block that waits for another. -/
theorem Stuck.owed (ordered : Ordered job sh bag) (stuck : Stuck job sh bag) {g : GroupId L D} {since : Nat}
    {b : Block L D} (member : .notified g since b ∈ bag) {P : Prop} (awaits : Awaits sh.groups g since P) :
    ∃ h n c, .notified h n c ∈ bag ∧ 0 < c.owes g := by
  have still := (stuck _ member).2 0
  have same : ¬since < sh.groups.emptied g := by
    intro became
    rw [react,if_pos became] at still
    cases still
  have past := awaits.past
  have busy := awaits.busy (by omega)
  rw [ordered.balanced.count] at busy
  obtain ⟨f,present,owed⟩ := (weigh_pos_iff _ _).mp busy
  obtain ⟨parked,_⟩ := stuck f present
  cases f with
  | notified h n c => exact ⟨h,n,c,present,owed⟩
  | queued n task => exact absurd (stuck.queues_empty ordered n task present) id
  | _ => cases parked

theorem owes_work {b : Block L D} {v : Wrapper L D} (owed : 0 < b.owes (.produced v)) :
    ∃ t, b = .work t ∧ t.wrapper = v := by
  cases b with
  | work t => exact ⟨t,rfl,group_produced owed⟩
  | doneWithGet w => simp [Block.owes,mark] at owed
  | scheduleCallback => cases owed

/-- Nothing waits for the prefetches of a module, from those that get nothing on. -/
theorem Stuck.fetched (plain : job.Plain) (ordered : Ordered job sh bag) (prefetching : Prefetching job sh bag)
    (stuck : Stuck job sh bag) (w : Wrapper L D) (g : GroupId L D) (since : Nat) (t : Worker L D)
    (same : t.wrapper = w) (member : .notified g since (.work t) ∈ bag) : False := by
  induction w using plain.acyclic.below.induction generalizing g since t with
  | _ w ih =>
    obtain ⟨_,_,awaits⟩ := prefetching.stands _ member
    obtain rfl : g = .prefetch t.wrapper := ordered.proper _ member
    obtain ⟨h,n,c,present,owed⟩ := stuck.owed ordered member awaits
    cases c with
    | work u => cases u <;> simp [Block.owes,Worker.group,mark] at owed
    | scheduleCallback => cases owed
    | doneWithGet x =>
      obtain ⟨v,gets,rfl⟩ := ordered.proper _ present
      have here : x = w := by
        by_contra other
        simp [Block.owes,mark,same,other] at owed
      obtain ⟨k,m,b,inside,owed⟩ := stuck.owed ordered present (prefetching.stands _ present)
      obtain ⟨u,rfl,named⟩ := owes_work owed
      exact ih v (here ▸ gets) k m u named inside

/-- Where every frame waits for what does not come there is none. -/
theorem Stuck.empty (ordered : Ordered job sh bag) (prefetching : Prefetching job sh bag)
    (meaningful : Meaningful plain index sh bag) (stuck : Stuck job sh bag) : bag = 0 := by
  refine Multiset.eq_zero_of_forall_notMem fun f member => ?_
  have none (g : GroupId L D) (since : Nat) (t : Worker L D) (inside : .notified g since (.work t) ∈ bag) : False :=
    stuck.fetched plain ordered prefetching t.wrapper g since t rfl inside
  obtain ⟨parked,_⟩ := stuck f member
  cases f with
  | queued n task => exact stuck.queues_empty ordered n task member
  | notified g since b =>
    cases b with
    | work t => exact none g since t member
    | doneWithGet w =>
      obtain ⟨v,_,rfl⟩ := ordered.proper _ member
      obtain ⟨h,n,c,inside,owed⟩ := stuck.owed ordered member (prefetching.stands _ member)
      obtain ⟨u,rfl,_⟩ := owes_work owed
      exact none h n u inside
    | scheduleCallback =>
      obtain rfl : g = .allPathsDone := ordered.proper _ member
      obtain ⟨h,n,c,inside,owed⟩ := stuck.owed ordered member (meaningful.means _ member)
      cases c with
      | work u => exact none h n u inside
      | doneWithGet w => simp [Block.owes,mark] at owed
      | scheduleCallback => cases owed
  | _ => cases parked

end Steps

/-- What holds in every state of an event of a plain job, of its threads as well. -/
structure Going (plain : job.Plain) (index : Nat) (s : State L D E) : Prop where
  ordered : Ordered job s.shared s.bag
  prefetching : Prefetching job s.shared s.bag
  meaningful : Meaningful plain index s.shared s.bag
  alone : s.Alone Parked

section Runs
variable {plain : job.Plain} {index : Nat} {sh : Shared L D E} {s t : State L D E}

theorem Going.next (going : Going plain index s) (a : Nat × Nat) (taken : DispatchSchedule.next job s a = some t) :
    Going plain index t ∧ weigh (effort plain) t.bag < weigh (effort plain) s.bag := by
  obtain ⟨ordered,prefetching,meaningful,alone⟩ := going
  have together : Ordered job t.shared t.bag ∧ Prefetching job t.shared t.bag ∧
      Meaningful plain index t.shared t.bag :=
    meaningful_next ⟨ordered,prefetching,meaningful⟩ taken
  refine ⟨⟨together.1,together.2.1,together.2.2,alone.step ?_ taken⟩,?_⟩
  · exact fun f r _ reacted g called waiting => absurd waiting (calls_go (react_reacts reacted) g called)
  · obtain ⟨f,r,rest,reacted,_,before,after,_⟩ := Pool.step_bag taken
    rw [before] at ordered prefetching
    have first := Multiset.mem_cons_self f rest
    have less := effort_react plain (ordered.proper f first) (prefetching.stands f first) (react_reacts reacted)
    rw [before,after,weigh_cons,weigh_add]
    omega

theorem Ready.going (ready : Ready sh index) (plain : job.Plain) : Going plain index (processing job sh) := by
  refine ⟨ready.ordered,ready.prefetching,ready.meaningful,fun stack member f inside waits => ?_⟩
  obtain rfl := List.mem_singleton.mp member
  rw [List.mem_singleton.mp inside]

/-- Where no thread can act everything has been executed and nothing is held any more. -/
theorem Going.halted (going : Going plain index s) (halted : Halted (DispatchSchedule.next job) s) :
    s.bag = 0 ∧ s.shared.called = [true] ∧ LogMeans plain index s.shared.log ∧
      (∀ g, s.shared.groups.count g = 0) ∧ ∀ q, s.shared.queues.Quiet q 0 := by
  obtain ⟨ordered,prefetching,meaningful,alone⟩ := going
  have stuck : Stuck job s.shared s.bag := by
    refine alone.halted (fun k choice => halted (k,choice)) fun f member goes => ⟨0,?_⟩
    exact goes_on plain (ordered.proper f member) (prefetching.stands f member) (meaningful.wanted f member)
      (meaningful.means f member) goes
  have empty := stuck.empty ordered prefetching meaningful
  have once := meaningful.calling
  have executing := ordered.locked.running
  have held := ordered.locked.suspended
  have owed := ordered.balanced.count
  rw [empty] at once executing held owed
  simp only [weigh_zero,Nat.zero_add] at once executing held owed
  have called : s.shared.called ≠ [] := List.length_pos_iff.mp (by omega)
  obtain ⟨success,means⟩ := meaningful.outcome ordered prefetching called
  refine ⟨empty,success,means,owed,fun q => ⟨?_,Bool.toNat_eq_zero.mp (executing q).symm,(held q).symm⟩⟩
  by_contra waiting
  obtain ⟨f,member,_⟩ := ordered.turns.next_waits waiting
  rw [empty] at member
  cases member

end Runs

/-- No event is without end, in whatever order the threads act: a run of an event is no longer than a bound
and can be taken on until no thread can act, and then all has been executed, the callback has been
called, once and with success, and no group or queue is held any more. -/
theorem event_ends (job : Job L D E) (plain : job.Plain) (sh : Shared L D E) (index : Nat)
    (ready : Ready sh index) : ∃ bound, ∀ actions s,
      execute (next job) (processing job sh) actions = some s →
        actions.length ≤ bound ∧
        (∃ more t, execute (next job) s more = some t ∧ Halted (next job) t) ∧
        (Halted (next job) s → s.bag = 0 ∧ s.shared.called = [true] ∧ LogMeans plain index s.shared.log ∧
          (∀ g, s.shared.groups.count g = 0) ∧ ∀ q, s.shared.queues.Quiet q 0) := by
  have preserved (s : State L D E) (a : Nat × Nat) (t : State L D E) (going : Going plain index s)
      (taken : next job s a = some t) : Going plain index t := (going.next a taken).1
  have less (s : State L D E) (a : Nat × Nat) (t : State L D E) (going : Going plain index s)
      (taken : next job s a = some t) : weigh (effort plain) t.bag < weigh (effort plain) s.bag :=
    (going.next a taken).2
  refine ⟨weigh (effort plain) (processing job sh).bag,fun actions s ran => ?_⟩
  have going : Going plain index s :=
    Reaches.invariant (fun s a t going _ taken => preserved s a t going taken) (execute_reachable actions ran)
      (ready.going plain)
  have short := execute_length preserved less actions (ready.going plain) ran
  exact ⟨by omega,execute_halts preserved less s going,going.halted⟩

open Schedule (sharedFilter sharedFilter_plain)

theorem event_ends_sharedFilter : ∃ actions s,
    execute (next sharedFilter) (processing sharedFilter (fresh Unit Nat Unit 3)) actions = some s ∧
      s.bag = 0 ∧ s.shared.called = [true] ∧ LogMeans sharedFilter_plain 3 s.shared.log := by
  obtain ⟨bound,ends⟩ := event_ends sharedFilter sharedFilter_plain (fresh Unit Nat Unit 3) 3 (fresh_ready 3)
  obtain ⟨_,⟨actions,s,ran,halted⟩,_⟩ := ends [] _ rfl
  obtain ⟨empty,called,means,_⟩ := (ends actions s ran).2.2 halted
  exact ⟨actions,s,ran,empty,called,means⟩

end ToyMtFramework.DispatchSchedule
