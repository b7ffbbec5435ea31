import ToyMtFramework.DispatchScheduleMeaning

/-! How the paths of an event go on in the Dispatch framework, and how the event ends. Each path keeps the
group of all paths until it ends, so the callback, which is called once, finds all of them ended, with
all that the event needs in the log. -/
namespace ToyMtFramework.DispatchSchedule
open Activities Transition
open Schedule (Job Wrapper performers LogMeans mem_performers mem_reached)
open DispatchQueues (mark mark_self)

variable {L D E : Type} [DecidableEq L] [DecidableEq D] {job : Job L D E}

section Steps
variable {plain : job.Plain} {index : Nat} {sh : Shared L D E} {f : Frame L D E}
  {r : Reaction (Shared L D E) (Frame L D E)} {bag rest : Multiset (Frame L D E)}

inductive Begins (job : Job L D E) : Frame L D E → Worker L D → Prop
  | filter (p i : Nat) (label : L) (at_i : (job.path p)[i]? = some label) :
    Begins job (.runFilterAsync p i) (.filterOnPath p i label)
  | producer (label : L) (product : D) :
    Begins job (.doProduceAsyncImpl (.producer label product)) (.producer label product)

theorem worker_react {h : Frame L D E} {t : Worker L D} (reacts : Reacts job sh f r) (member : h ∈ r.frames)
    (worker : h.worker = some t) : f.worker = some t ∨ Begins job f t := by
  cases reacts with
  | filterDone p i label calm at_i ran | filterAsync p i label calm at_i unrun =>
    right
    obtain rfl := Multiset.mem_singleton.mp (by simpa using member)
    obtain rfl := Option.some.inj worker
    exact .filter p i label at_i
  | doProduceAsyncImpl label product unrun =>
    right
    have place : h = .doPrefetchAndWork (.producer label product) ∨
        h = .leave (.produced (.producer label product)) := by simpa using member
    rcases place with rfl | rfl
    · obtain rfl := Option.some.inj worker
      exact .producer label product
    · cases worker
  | notifyNow g b empty | notify g b busy | notified g since b became =>
    left
    obtain rfl := Multiset.mem_singleton.mp (by simpa using member)
    cases b <;> exact worker
  | addTask u task kind =>
    left
    obtain rfl := Multiset.mem_singleton.mp (by simpa using member)
    subst kind
    simp only [Shared.waits,Frame.worker] at worker ⊢
    split at worker <;> exact worker
  | worked u direct =>
    cases u <;> cases direct <;> simp [Shared.informs] at member <;>
      rcases member with rfl | rfl <;> cases worker
  | _ =>
    simp only [Reaction.frames_mk,List.nil_append,List.cons_append,List.append_nil,Multiset.mem_coe,
      List.mem_cons,List.not_mem_nil,or_false] at member <;>
      first
      | (subst h; exact Or.inl worker)
      | (rcases member with rfl | rfl <;> first | exact Or.inl worker | cases worker)

/-- A worker goes on until its work is done. -/
theorem worker_keep {t : Worker L D} (reacts : Reacts job sh f r) (worker : f.worker = some t) :
    (∃ direct, f = .worked t direct) ∨ ∃ h ∈ r.frames, h.worker = some t := by
  cases reacts with
  | worked u direct =>
    obtain rfl := Option.some.inj worker
    exact Or.inl ⟨direct,rfl⟩
  | notifyNow g b empty | notify g b busy | notified g since b became =>
    right
    cases b with
    | work u => simpa [Frame.worker] using worker
    | _ => cases worker
  | addTask u task kind =>
    right
    subst kind
    cases isUnsafe job u.wrapper <;> simpa [Frame.worker,Shared.waits,Task.worker] using worker
  | _ =>
    right
    simp [Frame.worker,Task.worker,Shared.waits] at worker ⊢ <;> exact worker

theorem wanted_new (wanted : ∀ t, f.worker = some t → Wanted plain index sh t)
    (means : Means plain index sh f) (reacts : Reacts job sh f r) :
    ∀ h ∈ r.frames, ∀ t, h.worker = some t → Wanted plain index r.shared t := by
  intro h member t worker
  refine Wanted.react ?_ reacts
  rcases worker_react reacts member worker with before | begins
  · exact wanted t before
  · cases begins with
    | filter p i label at_i => exact ⟨at_i,means⟩
    | producer label product => exact means

theorem Prefetching.performer (prefetching : Prefetching job sh bag) {w : Wrapper L D}
    (ran : sh.wasRun w = true) : w ∈ performers sh.log := by
  have once := prefetching.once w
  rw [ran,Bool.toNat_true] at once
  exact List.count_pos_iff.mp (by omega)

/-- A frame on a path keeps the group of all paths, once they have been launched. -/
theorem onPath_owes {p : Nat} (on : OnPath p f) : (∃ ps, f = .process ps) ∨ 0 < owes .allPathsDone f := by
  have worker {t : Worker L D} (path : ∃ i label, some t = some (Worker.filterOnPath p i label)) :
      mark t.group (.allPathsDone : GroupId L D) = 1 := by
    obtain ⟨i,label,same⟩ := path
    obtain rfl := Option.some.inj same
    exact mark_self _
  cases f with
  | process ps => exact Or.inl ⟨ps,rfl⟩
  | processPresentPath q | runAsync q | runFilterAsync q i | doNextIfSuccess q i keep success =>
    right
    simp [owes,mark_self]
  | requestPrefetch t | prefetch t gs | doProduceAsync t g gs | produceAsync t g gs | waitForGet t g gs
  | notifyGet t g gs =>
    right
    simp only [owes,worker on]
    omega
  | doPrefetchAndWork t | addUnsafe t | addWork t | doWork t direct | body t direct gs values
  | put t direct puts | setWasRun t direct | worked t direct =>
    right
    simp [owes,worker on]
  | queued turn task | task task =>
    right
    simp [owes,worker on]
  | notify g b | notified g since b | block b =>
    right
    cases b with
    | work t => simp [owes,Block.owes,worker on]
    | _ => simp [OnPath,Frame.worker] at on
  | _ => simp [OnPath,Frame.worker] at on

/-- When the group of all paths is empty, and they have been launched, all paths have ended. -/
theorem ended_of_empty (balanced : Balanced owes sh.groups bag)
    (paths : ∀ p < job.paths.length, (∃ f ∈ bag, OnPath p f) ∨ Ended plain index sh p)
    (calling : weigh DispatchSchedule.calling bag + sh.called.length = 1) (member : f ∈ bag)
    (calls : DispatchSchedule.calling f = 1) (launched : ∀ ps, f ≠ .process ps)
    (empty : sh.groups.count .allPathsDone = 0) : AllEnded plain index sh := by
  intro p inside
  rcases paths p inside with ⟨g,present,on⟩ | ended
  · exfalso
    rcases onPath_owes on with ⟨ps,rfl⟩ | owed
    · obtain ⟨rest,rfl⟩ := Multiset.exists_cons_of_mem member
      have other := (Multiset.mem_cons.mp present).resolve_left (Ne.symm (launched ps))
      have more : 0 < weigh DispatchSchedule.calling rest := weigh_pos other Nat.one_pos
      rw [weigh_cons] at calling
      omega
    · have count := balanced.count .allPathsDone
      have more := weigh_pos present owed
      omega
  · exact ended

/-- The path ends where the filter that was run rejects the event, or is the last. -/
theorem ended_last {p i : Nat} {label : L} (passed : Passed plain index sh p i)
    (at_i : (job.path p)[i]? = some label) (ran : .filter label ∈ performers sh.log)
    (last : (job.outcome plain.acyclic index (.filter label)).keep = false ∨ (job.path p).length ≤ i + 1) :
    Ended plain index sh p := by
  intro other member
  obtain ⟨j,at_j,before⟩ := mem_reached.mp member
  rcases Nat.lt_trichotomy j i with early | rfl | late
  · exact (passed.kept j early other at_j).1
  · obtain rfl := Option.some.inj (at_i.symm.trans at_j)
    exact ran
  · have kept := before i late label at_i
    have inside := (List.getElem?_eq_some_iff.mp at_j).1
    rcases last with rejected | short
    · exact absurd kept (Bool.eq_false_iff.mp rejected)
    · omega

omit [DecidableEq L] [DecidableEq D] in
theorem onPath_of_worker {p i : Nat} {label : L} (worker : f.worker = some (.filterOnPath p i label)) :
    OnPath p f := by
  cases f with
  | process ps | processPresentPath q | runAsync q | runFilterAsync q j | doNextIfSuccess q j keep success =>
    cases worker
  | _ => exact ⟨i,label,worker⟩

/-- A worker on the path goes on, or takes the path on when its work is done. -/
theorem worker_onPath {p i : Nat} {label : L} (worker : f.worker = some (.filterOnPath p i label))
    (reacts : Reacts job sh f r) : ∃ h ∈ r.frames, OnPath p h := by
  rcases worker_keep reacts worker with ⟨direct,rfl⟩ | ⟨h,member,worker⟩
  · cases reacts
    exact ⟨.doNextIfSuccess p i (sh.keep label) true,by simp [Shared.informs],rfl⟩
  · exact ⟨h,member,onPath_of_worker worker⟩

/-- A path goes on until it ends. -/
theorem onPath_react {p : Nat} (calm : sh.fatalJobErrorOccured = false) (proper : Proper job f)
    (means : Means plain index sh f) (on : OnPath p f) (reacts : Reacts job sh f r) :
    (∃ h ∈ r.frames, OnPath p h) ∨ Ended plain index r.shared p := by
  have goes {i : Nat} {label : L} (worker : f.worker = some (.filterOnPath p i label)) := worker_onPath worker reacts
  cases reacts with
  | noPaths none | launched some => cases on
  | process q ps =>
    left
    rcases List.mem_cons.mp on with rfl | later
    · exact ⟨.processPresentPath p,by simp,rfl⟩
    · exact ⟨.process ps,by simp,later⟩
  | absentPath q fatal | skipFilter q i fatal =>
    rw [calm] at fatal
    cases fatal
  | presentPath q calm => exact Or.inl ⟨.runAsync q,by simp,on⟩
  | emptyPath q empty =>
    obtain rfl : q = p := on
    right
    simp [Ended,empty,Schedule.Job.reached]
  | runAsync q some => exact Or.inl ⟨.runFilterAsync q 0,by simp,on⟩
  | filterDone q i label calm at_i ran =>
    obtain rfl : q = p := on
    exact Or.inl ⟨.doWork (.filterOnPath q i label) true,by simp,i,label,rfl⟩
  | filterAsync q i label calm at_i unrun =>
    obtain rfl : q = p := on
    exact Or.inl ⟨.doPrefetchAndWork (.filterOnPath q i label),by simp,i,label,rfl⟩
  | noSuccess q i keep => cases proper
  | nextFilter q i calm more => exact Or.inl ⟨.runFilterAsync q (i + 1),by simp,on⟩
  | pathEnds q i keep last =>
    right
    obtain rfl : q = p := on
    obtain ⟨passed,label,at_i,ran,rfl⟩ := means
    exact ended_last passed at_i ran (last.resolve_left (by simp [calm]))
  | _ =>
    obtain ⟨i,label,worker⟩ := on
    exact Or.inl (goes worker)

theorem calling_react (reacts : Reacts job sh f r) :
    weigh calling r.frames + r.shared.called.length = calling f + sh.called.length := by
  cases reacts with
  | noPaths none => simp [calling,Nat.add_comm]
  | scheduleCallback => simp [calling,Nat.add_comm]
  | notifyNow g b empty | notify g b busy | notified g since b became => cases b <;> simp [calling]
  | worked t direct => cases t <;> cases direct <;> simp [calling,Shared.informs]
  | _ => simp [calling,Shared.withGroups,Shared.withQueues,Shared.addTask,Shared.waits,Shared.ran,
      Shared.setValue,Shared.setWasRun]

/-- The callback is called with success, when all paths have ended. -/
theorem called_react (calm : sh.fatalJobErrorOccured = false)
    (called : sh.called ≠ [] → AllEnded plain index sh ∧ ∀ success ∈ sh.called, success = true)
    (means : Means plain index sh f) (reacts : Reacts job sh f r) :
    r.shared.called ≠ [] → AllEnded plain index r.shared ∧ ∀ success ∈ r.shared.called, success = true := by
  have before (success : Bool) (member : success ∈ sh.called) : success = true :=
    (called (List.ne_nil_of_mem member)).2 success member
  cases reacts with
  | noPaths none =>
    refine fun _ => ⟨fun p inside => ?_,fun success member => ?_⟩
    · simp [none] at inside
    · rcases List.mem_append.mp member with old | new
      · exact before success old
      · exact List.mem_singleton.mp new
  | scheduleCallback =>
    refine fun _ => ⟨means,fun success member => ?_⟩
    rcases List.mem_append.mp member with old | new
    · exact before success old
    · rw [List.mem_singleton.mp new,calm]
      rfl
  | body t direct values seed returned =>
    intro some
    exact ⟨(called some).1.react (.body t direct values seed returned),(called some).2⟩
  | _ => exact called

end Steps
end ToyMtFramework.DispatchSchedule
