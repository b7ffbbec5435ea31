import ToyMtFramework.Core.DispatchQueues
import ToyMtFramework.DispatchRunQueues

/-! How the Dispatch framework executes the bodies of the modules of all contexts. A thread-unsafe module
first suspends its run queue and then the queue of all thread-unsafe modules, each from a task on it, and
does its work on another thread; a `get` in its body gives up the second queue and takes it back. A module
may be asked for, and the data of a `get` be there, at any time, which covers every order of the events. -/
namespace ToyMtFramework.DispatchUnsafe
open Activities Transition DispatchRunQueues

variable {L : Type}

/-- What is added to a serial queue. The last one is the task of `dispatch_sync_f` in `edm::Event::get`,
after which the body that waits for it goes on. -/
inductive Task (L : Type) where
  | doWorkTask (w : ModuleWrapper L)
  | suspendRunQueue (w : ModuleWrapper L)
  | suspendUnsafeQueue (w : ModuleWrapper L)
  | getSuspend (w : ModuleWrapper L)

def Task.queue : Task L → Queue
  | .doWorkTask w | .suspendRunQueue w => w.runQueue
  | .suspendUnsafeQueue _ | .getSuspend _ => nonThreadSafeQueue

/-- What a thread is about to do. `asked` is a call of `filterAsync` or `doProduceAsync`, `prefetching`
waits for the prefetch group; `work` is a call of `doWork`, `body` one of `filter` or `produce`. -/
inductive Frame (L : Type) where
  | asked (w : ModuleWrapper L)
  | prefetching (w : ModuleWrapper L)
  | queued (turn : Nat) (task : Task L)
  | task (task : Task L)
  | addUnsafe (w : ModuleWrapper L)
  | addWork (w : ModuleWrapper L)
  | taskEnds (q : Queue)
  | work (w : ModuleWrapper L)
  | body (w : ModuleWrapper L)
  | getting (w : ModuleWrapper L)
  | getReturns (w : ModuleWrapper L)
  | workEnds (w : ModuleWrapper L)
  | resumeRunQueue (w : ModuleWrapper L)

structure Shared (L : Type) where
  queues : DispatchQueues Queue
  wasRun : ModuleWrapper L → Bool

def Shared.withQueues (sh : Shared L) (queues : DispatchQueues Queue) : Shared L :=
  {sh with queues := queues}

def Shared.addTask (sh : Shared L) (task : Task L) : Shared L :=
  sh.withQueues (sh.queues.add task.queue)

def Shared.waits (sh : Shared L) (task : Task L) : Frame L :=
  .queued (sh.queues.added task.queue) task

variable [DecidableEq L]

/-- `again` tells whether a body makes another `get`. -/
def react (sh : Shared L) : Frame L → Bool → Option (Reaction (Shared L) (Frame L))
  -- where the module was run `filterAsync` calls `doWork` at once, which only informs the path
  | .asked w, _ => some ⟨sh,if sh.wasRun w then [] else [.prefetching w],[]⟩
  | .prefetching w, _ =>
    let task := if w.module.isUnsafe then Task.suspendRunQueue w else .doWorkTask w
    some ⟨sh.addTask task,[],[sh.waits task]⟩
  | .queued turn task, _ =>
    (sh.queues.start task.queue turn).map fun queues => ⟨sh.withQueues queues,[.task task],[]⟩
  | .task (.doWorkTask w), _ => some ⟨sh,[.work w],[]⟩
  | .task (.suspendRunQueue w), _ => some ⟨sh.withQueues (sh.queues.suspend w.runQueue),[.addUnsafe w],[]⟩
  | .addUnsafe w, _ =>
    some ⟨sh.addTask (.suspendUnsafeQueue w),[.taskEnds w.runQueue],[sh.waits (.suspendUnsafeQueue w)]⟩
  | .task (.suspendUnsafeQueue w), _ =>
    some ⟨sh.withQueues (sh.queues.suspend nonThreadSafeQueue),[.addWork w],[]⟩
  | .addWork w, _ => some ⟨sh,[.taskEnds nonThreadSafeQueue],[.work w]⟩
  | .taskEnds q, _ => some ⟨sh.withQueues (sh.queues.finish q),[],[]⟩
  | .work w, _ => some ⟨sh,if sh.wasRun w then [.workEnds w] else [.body w],[]⟩
  | .body w, again =>
    if again && w.module.syncGets then
      some ⟨if w.module.isUnsafe then sh.withQueues (sh.queues.resume nonThreadSafeQueue) else sh,[.getting w],[]⟩
    else some ⟨{sh with wasRun := Function.update sh.wasRun w true},[.workEnds w],[]⟩
  | .getting w, _ =>
    if w.module.isUnsafe then some ⟨sh.addTask (.getSuspend w),[],[sh.waits (.getSuspend w)]⟩
    else some ⟨sh,[.body w],[]⟩
  | .task (.getSuspend w), _ =>
    some ⟨sh.withQueues (sh.queues.suspend nonThreadSafeQueue),[.getReturns w],[]⟩
  | .getReturns w, _ => some ⟨sh.withQueues (sh.queues.finish nonThreadSafeQueue),[.body w],[]⟩
  | .workEnds w, _ =>
    if w.module.isUnsafe then
      some ⟨sh.withQueues (sh.queues.resume nonThreadSafeQueue),[.resumeRunQueue w],[]⟩
    else some ⟨sh.withQueues (sh.queues.finish w.runQueue),[],[]⟩
  | .resumeRunQueue w, _ => some ⟨sh.withQueues (sh.queues.resume w.runQueue),[],[]⟩

inductive Action where
  | act (thread : Nat) (again : Bool)
  | ask (wrapper : Nat)
  | reset (event : Nat)

abbrev State (L : Type) := Pool (Shared L) (Frame L)

def next (ws : List (ModuleWrapper L)) (s : State L) : Action → Option (State L)
  | .act thread again => s.step react thread again
  | .ask wrapper => ws[wrapper]?.map fun w => ⟨s.shared,s.threads ++ [[.asked w]]⟩
  | .reset event =>
    some ⟨{s.shared with wasRun := fun w => if w.event = event then false else s.shared.wasRun w},s.threads⟩

def initial (L : Type) : State L where
  threads := []
  shared := ⟨.empty,fun _ => false⟩

def outside : Frame L → Nat
  | .body w => if w.module.isUnsafe then 1 else 0
  | _ => 0

def bodyOf (m : Module L) : Frame L → Nat
  | .body w | .getting w | .queued _ (.getSuspend w) | .task (.getSuspend w) | .getReturns w =>
    if w.module = m then 1 else 0
  | _ => 0

/-- What the two queues are suspended for. -/
structure Exclusive (s : State L) : Prop where
  outside : weigh outside s.bag ≤ 1
  instances : ∀ m : Module L, m.isUnsafe = true → weigh (bodyOf m) s.bag ≤ 1
  suspended : s.shared.queues.suspended nonThreadSafeQueue ≤ 1
  matched : s.shared.queues.overResumed = false

end ToyMtFramework.DispatchUnsafe
