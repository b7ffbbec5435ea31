import ToyMtFramework.Core.SerialQueues
import ToyMtFramework.RunQueues

/-! The bodies of the modules of all schedules, and the queues they are executed in. A run task may
execute whenever its wrapper is asked for its module, and the waiting task of an `acquire` when its
last holder is gone; both may happen at any time and any number of times here, which covers every
order of the events. A queue executes at most one of its tasks at a time. -/
namespace ToyMtFramework.ThreadTypes
open Activities Transition RunQueues
open ToyMtFramework.Schedule (ThreadType)

variable {L P E : Type}

inductive Stage (E : Type) where
  | execute (ptr : Option E)
  | queuedAcquire (ptr : Option E)
  | runModuleAcquireAfterAsyncPrefetch (ptr : Option E)
  | implDoAcquire
  | continuation (ptr : Option E)
  | queuedWork (ptr : Option E)
  | runModuleAfterAsyncPrefetch (ptr : Option E)
  | implDoWork
  | doneWaiting (ptr : Option E)

structure Frame (L E : Type) where
  wrapper : ModuleWrapper L
  stage : Stage E

def push (w : ModuleWrapper L) (queued direct : Stage E) : Reaction Unit (Frame L E) :=
  match w.runQueue with
  | some _ => ⟨(),[],[⟨w,queued⟩]⟩
  | none => ⟨(),[⟨w,direct⟩],[]⟩

def react (_ : Unit) (f : Frame L E) (thrown : Option E) : Option (Reaction Unit (Frame L E)) :=
  let w := f.wrapper
  match f.stage with
  | .execute ptr =>
    if w.module.hasAcquire then
      some (push w (.queuedAcquire ptr) (.runModuleAcquireAfterAsyncPrefetch ptr))
    else some (push w (.queuedWork ptr) (.runModuleAfterAsyncPrefetch ptr))
  | .queuedAcquire ptr => some ⟨(),[⟨w,.runModuleAcquireAfterAsyncPrefetch ptr⟩],[]⟩
  | .runModuleAcquireAfterAsyncPrefetch none => some ⟨(),[⟨w,.implDoAcquire⟩],[]⟩
  | .runModuleAcquireAfterAsyncPrefetch (some e) => some ⟨(),[⟨w,.doneWaiting (some e)⟩],[]⟩
  -- What the body throws is caught and goes no further.
  | .implDoAcquire => some ⟨(),[],[]⟩
  | .continuation ptr => some (push w (.queuedWork ptr) (.runModuleAfterAsyncPrefetch ptr))
  | .queuedWork ptr => some ⟨(),[⟨w,.runModuleAfterAsyncPrefetch ptr⟩],[]⟩
  | .runModuleAfterAsyncPrefetch none => some ⟨(),[⟨w,.implDoWork⟩],[]⟩
  | .runModuleAfterAsyncPrefetch (some e) => some ⟨(),[⟨w,.doneWaiting (some e)⟩],[]⟩
  | .implDoWork => some ⟨(),[⟨w,.doneWaiting thrown⟩],[]⟩
  | .doneWaiting _ => some ⟨(),[],[]⟩

def queues : Queues (Frame L E) Queue where
  waits f := match f.stage with
    | .queuedAcquire _ | .queuedWork _ => f.wrapper.runQueue
    | _ => none
  executes f := match f.stage with
    | .runModuleAcquireAfterAsyncPrefetch _ | .implDoAcquire | .runModuleAfterAsyncPrefetch _ | .implDoWork
    | .doneWaiting _ => f.wrapper.runQueue
    | _ => none

inductive Action (E : Type) where
  | act (thread : Nat) (thrown : Option E)
  | execute (wrapper : Nat) (ptr : Option E)
  | continuation (wrapper : Nat) (ptr : Option E)

abbrev State (L E : Type) := Pool Unit (Frame L E)

def next (wrappers : List (ModuleWrapper L)) (s : State L E) : Action E → Option (State L E)
  | .act thread thrown => queues.step react s thread thrown
  | .execute wrapper ptr => wrappers[wrapper]?.map fun w => ⟨(),s.threads ++ [[⟨w,.execute ptr⟩]]⟩
  | .continuation wrapper ptr => wrappers[wrapper]?.map fun w => ⟨(),s.threads ++ [[⟨w,.continuation ptr⟩]]⟩

def initial (L E : Type) : State L E := ⟨(),[]⟩

def Stage.isBody : Stage E → Bool
  | .implDoAcquire | .implDoWork => true
  | _ => false

def bodies (kind : Module L → Bool) (f : Frame L E) : Nat :=
  if f.stage.isBody && kind f.wrapper.module then 1 else 0

def isUnsafe (m : Module L) : Bool :=
  m.threadType = .threadUnsafe

def isBetweenModules (id : Nat) (m : Module L) : Bool :=
  m.threadType = .threadSafeBetweenModules && m.id = id

theorem push_kept (w : ModuleWrapper L) {queued direct : Stage E}
    (waiting : (queues.executes ⟨w,queued⟩ : Option Queue) = none)
    (executing : (queues.executes ⟨w,direct⟩ : Option Queue) = w.runQueue) (q : Queue) :
    weigh (queues.inside q) (push w queued direct).frames = 0 := by
  unfold push
  cases queue : w.runQueue with
  | none => simp [Queues.inside,executing,queue]
  | some _ => simp [Queues.inside,waiting]

theorem queues_kept : (queues : Queues (Frame L E) Queue).Kept react := by
  intro s f thrown r reacted q
  obtain ⟨w,stage⟩ := f
  cases stage with
  | execute ptr =>
    simp only [react] at reacted
    split at reacted <;> cases reacted
    · rw [push_kept w rfl rfl q]
      exact Nat.zero_le _
    · rw [push_kept w rfl rfl q]
      exact Nat.zero_le _
  | continuation ptr =>
    cases reacted
    rw [push_kept w rfl rfl q]
    exact Nat.zero_le _
  | queuedAcquire ptr | queuedWork ptr =>
    cases reacted
    simp only [Queues.inside,Reaction.frames_mk,List.append_nil,weigh_coe,List.map_cons,List.map_nil,
      List.sum_cons,List.sum_nil,queues,Nat.add_zero]
    exact Nat.le_add_left _ _
  | runModuleAcquireAfterAsyncPrefetch ptr | runModuleAfterAsyncPrefetch ptr =>
    cases ptr <;> cases reacted <;>
      simp only [Queues.inside,Reaction.frames_mk,List.append_nil,weigh_coe,List.map_cons,List.map_nil,
        List.sum_cons,List.sum_nil,queues,Nat.add_zero] <;> exact Nat.le_add_right _ _
  | implDoWork =>
    cases reacted
    simp only [Queues.inside,Reaction.frames_mk,List.append_nil,weigh_coe,List.map_cons,List.map_nil,
      List.sum_cons,List.sum_nil,queues,Nat.add_zero]
    exact Nat.le_add_right _ _
  | implDoAcquire | doneWaiting ptr =>
    cases reacted
    exact Nat.zero_le _

/-- No step takes a frame to another wrapper. -/
theorem react_wrapper {f : Frame L E} {thrown : Option E} {r : Reaction Unit (Frame L E)}
    (reacted : react () f thrown = some r) {g : Frame L E} (member : g ∈ r.frames) :
    g.wrapper = f.wrapper := by
  obtain ⟨w,stage⟩ := f
  have pushed (queued direct : Stage E) (inside : g ∈ (push w queued direct).frames) : g.wrapper = w := by
    unfold push at inside
    split at inside <;> rw [Reaction.frames_mk,Multiset.mem_coe] at inside <;>
      obtain rfl := List.mem_singleton.mp inside <;> rfl
  cases stage with
  | execute ptr =>
    simp only [react] at reacted
    split at reacted <;> cases reacted <;> exact pushed _ _ member
  | continuation ptr =>
    cases reacted
    exact pushed _ _ member
  | runModuleAcquireAfterAsyncPrefetch ptr | runModuleAfterAsyncPrefetch ptr =>
    cases ptr <;> cases reacted <;> rw [Reaction.frames_mk,Multiset.mem_coe] at member <;>
      obtain rfl := List.mem_singleton.mp member <;> rfl
  | queuedAcquire ptr | queuedWork ptr | implDoWork =>
    cases reacted
    rw [Reaction.frames_mk,Multiset.mem_coe] at member
    obtain rfl := List.mem_singleton.mp member
    rfl
  | implDoAcquire | doneWaiting ptr =>
    cases reacted
    rw [Reaction.frames_mk,Multiset.mem_coe] at member
    cases member

/-- The frames of a run are those of the wrappers, and each queue executes at most one task. -/
structure Routing (wrappers : List (ModuleWrapper L)) (bag : Multiset (Frame L E)) : Prop where
  wrappers : ∀ f ∈ bag, f.wrapper ∈ wrappers
  serial : (queues : Queues (Frame L E) Queue).Serial bag

theorem Routing.spawn {wrappers : List (ModuleWrapper L)} {bag : Multiset (Frame L E)}
    (routing : Routing wrappers bag) {f : Frame L E} (member : f.wrapper ∈ wrappers)
    (outside : (queues.executes f : Option Queue) = none) : Routing wrappers (f ::ₘ bag) := by
  refine ⟨?_,fun q => ?_⟩
  · intro g inside
    rcases Multiset.mem_cons.mp inside with rfl | old
    · exact member
    · exact routing.wrappers g old
  · have one := routing.serial q
    rw [weigh_cons,Queues.inside,outside]
    simpa using one

theorem Routing.next {wrappers : List (ModuleWrapper L)} {s t : State L E} {a : Action E}
    (routing : Routing wrappers s.bag) (taken : next wrappers s a = some t) : Routing wrappers t.bag := by
  cases a with
  | act thread thrown =>
    refine ⟨?_,routing.serial.step queues_kept taken⟩
    obtain ⟨f,r,rest,reacted,_,before,after,_⟩ := Pool.step_bag (Queues.step_idle taken).1
    have old := routing.wrappers
    rw [before] at old
    rw [after]
    intro g member
    rcases Multiset.mem_add.mp member with new | other
    · rw [react_wrapper reacted new]
      exact old f (Multiset.mem_cons_self f rest)
    · exact old g (Multiset.mem_cons_of_mem other)
  | execute wrapper ptr | continuation wrapper ptr =>
    obtain ⟨w,found,rfl⟩ := Option.map_eq_some_iff.mp taken
    rw [Pool.bag_spawn]
    exact routing.spawn (List.mem_of_getElem? found) rfl

/-- A body is executed inside the queue of its wrapper, if it has one. -/
theorem bodies_le_inside {wrappers : List (ModuleWrapper L)} {kind : Module L → Bool} {q : Queue}
    (queue : ∀ w ∈ wrappers, kind w.module = true → w.runQueue = some q) {f : Frame L E}
    (member : f.wrapper ∈ wrappers) : bodies kind f ≤ queues.inside q f := by
  obtain ⟨w,stage⟩ := f
  unfold bodies
  split
  · rename_i body
    obtain ⟨isBody,same⟩ := Bool.and_eq_true_iff.mp body
    have found := queue w member same
    cases stage <;> simp [Stage.isBody] at isBody <;> simp [Queues.inside,queues,found]
  · exact Nat.zero_le _

theorem Routing.bodies_le_one {wrappers : List (ModuleWrapper L)} {bag : Multiset (Frame L E)}
    (routing : Routing wrappers bag) {kind : Module L → Bool} {q : Queue}
    (queue : ∀ w ∈ wrappers, kind w.module = true → w.runQueue = some q) : weigh (bodies kind) bag ≤ 1 := by
  apply le_trans _ (routing.serial q)
  exact weigh_le_of_mem fun f member => bodies_le_inside queue (routing.wrappers f member)

theorem reachable_routing {wrappers : List (ModuleWrapper L)} {s : State L E}
    (run : Reachable (next wrappers) (initial L E) s) : Routing wrappers s.bag := by
  have preserved (s : State L E) (a : Action E) (t : State L E) (routing : Routing wrappers s.bag)
      (_ : True) (taken : ThreadTypes.next wrappers s a = some t) : Routing wrappers t.bag :=
    routing.next taken
  have start : Routing wrappers (initial L E).bag := by
    constructor <;> simp [initial,Pool.bag,Queues.Serial]
  exact Reaches.invariant preserved run start

section Contract
variable [DecidableEq L] [DecidableEq P]

def wrappers (additions : List (Addition L P)) (numConcurrentEvents : Nat) : List (ModuleWrapper L) :=
  ((setup additions).schedules numConcurrentEvents).flatMap RunQueues.Schedule.wrappers

/-- Whatever the number of schedules, one body of the thread-unsafe modules is executing at a time,
and one body of each module that is thread-safe between modules. -/
theorem thread_types_kept (additions : List (Addition L P)) (numConcurrentEvents : Nat)
    (single : ∀ a ∈ additions, a.products.length ≤ 1) (s : State L E)
    (run : Reachable (next (wrappers additions numConcurrentEvents)) (initial L E) s) :
    weigh (bodies isUnsafe) s.bag ≤ 1 ∧ ∀ id, weigh (bodies (isBetweenModules id)) s.bag ≤ 1 := by
  have routing := reachable_routing run
  obtain ⟨routed,shared⟩ := (setup_wired single).schedules numConcurrentEvents
  constructor
  · apply routing.bodies_le_one
    intro w member kind
    have queue := routed w member
    rw [ModuleWrapper.Routed,of_decide_eq_true kind] at queue
    exact queue
  · intro id
    by_contra several
    obtain ⟨f,member,body⟩ := (weigh_pos_iff (bodies (isBetweenModules id)) s.bag).mp (by omega)
    obtain ⟨threadType,same⟩ : f.wrapper.module.threadType = .threadSafeBetweenModules ∧
        f.wrapper.module.id = id := by
      unfold bodies at body
      split at body
      · simp_all [isBetweenModules]
      · cases body
    have inside := routing.wrappers f member
    have queue := routed f.wrapper inside
    rw [ModuleWrapper.Routed,threadType] at queue
    obtain ⟨q,queue⟩ := queue
    refine several (routing.bodies_le_one (q := q) fun w other kind => ?_)
    have module : w.module.id = id := by simp_all [isBetweenModules]
    rw [(shared w other f.wrapper inside (module.trans same.symm)).2,queue]

end Contract

def twoModules : List (Addition Nat Nat) :=
  [.filter 0 .threadUnsafe false,.producer 1 .threadSafeBetweenModules true [0]]

/-- All four run tasks execute; both filters are pushed to one queue, and so are the producers. -/
theorem thread_types_kept_twoModules : ∃ s, execute (next (wrappers twoModules 2)) (initial Nat Nat)
    [.execute 0 none,.execute 1 none,.execute 2 none,.execute 3 none,.act 0 none,.act 1 none,.act 2 none,
      .act 3 none,.act 4 none,.act 5 none,.act 4 none,.act 5 none] = some s ∧
    weigh (bodies isUnsafe) s.bag ≤ 1 ∧ ∀ id, weigh (bodies (isBetweenModules id)) s.bag ≤ 1 := by
  have ran : (execute (next (wrappers twoModules 2)) (initial Nat Nat)
    [.execute 0 none,.execute 1 none,.execute 2 none,.execute 3 none,.act 0 none,.act 1 none,.act 2 none,
      .act 3 none,.act 4 none,.act 5 none,.act 4 none,.act 5 none]).isSome = true := by decide
  obtain ⟨s,ran⟩ := Option.isSome_iff_exists.mp ran
  exact ⟨s,ran,thread_types_kept twoModules 2 (by decide) s (execute_reachable _ ran)⟩

end ToyMtFramework.ThreadTypes
