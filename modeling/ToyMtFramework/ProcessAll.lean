import ToyMtFramework.ScheduleLoop

/-! `EventProcessor::processAll` of the TBB framework: the loop that launches the streams, the
streams, the serial queues they share and the loop that waits for their task groups.
The frames of stream `i` run in group `i`, apart from those that launch it. Picking the next
task of a queue is one step here, which may miss a task (`SerialTaskQueue` has the accesses).
There is at least one stream. -/
namespace ToyMtFramework.ProcessAll
open Activities Transition
open Schedule (Job Wrapper)
open Schedule.Loop (LoopFrame LoopShared)

variable {L D E : Type}

/-- Where `processAll` is: about to make the holder of the next stream, to copy it into the
call, to destroy it, to wait for a group, to test `done`. -/
inductive Main (E : Type) where
  | launch (streams : List Nat)
  | copyHolder (n : Nat) (streams : List Nat)
  | destroyHolder (n : Nat) (streams : List Nat)
  | wait (group : Nat)
  | testDone
  | returned (exceptPtr : Option E)
  deriving DecidableEq

inductive QueueId (L D : Type) where
  | nonThreadSafe
  | runQueue (w : Wrapper L D)
  deriving DecidableEq

/-- What a queued task runs; there is no `acquire` here. -/
inductive Stage where
  | acquire
  | work
  deriving DecidableEq

structure QueuedTask (L D E : Type) where
  group : Nat
  wrapper : Wrapper L D
  exceptionPtr : Option E
  stage : Stage

structure SerialQueue (L D E : Type) where
  tasks : List (QueuedTask L D E)
  taskChosen : Bool

/-- `doneWaiting` and `decrement` release the holder of `lastTask` that a stream has. -/
inductive Frame (L D E : Type) where
  | processAll
  | stream (i : Nat) (f : LoopFrame L D E)
  | doneWaiting (i : Nat) (e : Option E)
  | decrement (i : Nat)
  | serialTask (t : QueuedTask L D E)
  | finishedTask (group : Nat) (q : QueueId L D)
  | lastTask (group : Nat)
  | recycle (group : Nat)

structure Shared (L D E : Type) where
  main : Main E
  streams : Nat → Schedule.Shared L D E
  source : List Nat
  queues : QueueId L D → SerialQueue L D E
  refCount : Nat
  exceptionPtr : Option E
  done : Bool
  exceptPtr : Option E
  /-- From here on, what has happened so far: the streams that have a holder of `lastTask`,
  those that have got their last answer, how often the count has dropped to zero, the task was
  executed and deleted and a holder was made after that, and whether in this pass over the
  groups a stream whose group was waited for got a task from another stream. -/
  holding : List Nat
  ended : List Nat
  submitted : Nat
  executed : Nat
  deleted : Nat
  late : Nat
  handedOver : Bool

def Main.waited (N : Nat) : Main E → Nat
  | .wait g => g
  | .testDone | .returned _ => N
  | _ => 0

def Main.unlaunched : Main E → List Nat
  | .launch ns | .destroyHolder _ ns => ns
  | .copyHolder n ns => n :: ns
  | _ => []

def Main.holders : Main E → Nat
  | .copyHolder _ _ | .destroyHolder _ _ => 1
  | _ => 0

def Shared.hold (sh : Shared L D E) (main : Main E) : Shared L D E where
  __ := sh
  main := main
  refCount := sh.refCount + 1
  late := sh.late + if sh.submitted = 0 then 0 else 1

def Shared.drop (sh : Shared L D E) : Shared L D E where
  __ := sh
  refCount := sh.refCount - 1
  submitted := sh.submitted + if sh.refCount = 1 then 1 else 0

/-- What `group->run` is given by the holder that drops the last reference. -/
def Shared.run (sh : Shared L D E) (group : Nat) : List (Frame L D E) :=
  if sh.refCount = 1 then [.lastTask group] else []

def Shared.lastTask (sh : Shared L D E) : Shared L D E where
  __ := sh
  exceptPtr := sh.exceptionPtr.or sh.exceptPtr
  done := true
  executed := sh.executed + 1

def answer (source : List Nat) : LoopFrame L D E → Option (Option E)
  | .handleNextEventAsync (some e) => some (some e)
  | .eventReset [] _ => if source = [] then some none else none
  | _ => none

def Shared.setStream (sh : Shared L D E) (i : Nat) (after : LoopShared L D E)
    (answer : Option (Option E)) : Shared L D E where
  __ := sh
  streams := fun j => if j = i then after.schedule
    else {sh.streams j with fatal := (sh.streams j).fatal || after.schedule.fatal}
  source := after.source
  ended := if answer.isSome then i :: sh.ended else sh.ended

section Machine
variable [DecidableEq L] [DecidableEq D]

/-- `choseQueue`; the wrappers of all streams share the queue of the first. -/
def runQueue (job : Job L D E) (w : Wrapper L D) : Option (QueueId L D) :=
  match job.module w with
  | none => none
  | some m => match m.threadType with
    | .threadUnsafe => some .nonThreadSafe
    | .threadSafeBetweenModules => some (.runQueue w)
    | .threadSafeBetweenInstances => none

def Shared.setQueue (sh : Shared L D E) (q : QueueId L D) (queue : SerialQueue L D E) : Shared L D E :=
  {sh with queues := Function.update sh.queues q queue}

/-- `pickNextTask` by a thread of a group, which has `m_taskChosen` or finds it free. -/
def Shared.pickNextTask (N : Nat) (sh : Shared L D E) (q : QueueId L D) (group : Nat) :
    Shared L D E × Option (QueuedTask L D E) :=
  match (sh.queues q).tasks with
  | [] => (sh.setQueue q ⟨[],false⟩,none)
  | t :: ts => ({sh.setQueue q ⟨ts,true⟩ with
      handedOver := sh.handedOver || (t.group ≠ group && t.group < sh.main.waited N)},some t)

/-- `RunModuleTask::execute` of a module that has a queue pushes this. -/
def pushed (job : Job L D E) (sh : Shared L D E) (i : Nat) :
    LoopFrame L D E → Option (QueueId L D × QueuedTask L D E)
  | .schedule (.execute (.runModule w)) =>
    (runQueue job w).map fun q => (q,⟨i,w,(sh.streams i).exceptionPtr (.runModule w),.work⟩)
  | _ => none

def push (N : Nat) (sh : Shared L D E) (q : QueueId L D) (t : QueuedTask L D E) :
    Reaction (Shared L D E) (Frame L D E) :=
  let added := sh.setQueue q {sh.queues q with tasks := (sh.queues q).tasks ++ [t]}
  if (sh.queues q).taskChosen then ⟨added,[],[]⟩
  else
    let picked := added.pickNextTask N q t.group
    ⟨picked.1,[],picked.2.toList.map .serialTask⟩

/-- A task for the group of the thread is executed next, one for another group is spawned. -/
def finishedTask (N : Nat) (sh : Shared L D E) (group : Nat) (q : QueueId L D) :
    Reaction (Shared L D E) (Frame L D E) :=
  let picked := sh.pickNextTask N q group
  ⟨picked.1,(picked.2.filter fun t => t.group = group).toList.map .serialTask,
    (picked.2.filter fun t => t.group ≠ group).toList.map .serialTask⟩

def processAll (N : Nat) (sh : Shared L D E) : Option (Reaction (Shared L D E) (Frame L D E)) :=
  match sh.main with
  | .launch [] => some ⟨{sh with main := .wait 0},[.processAll],[]⟩
  | .launch (n :: ns) => some ⟨sh.hold (.copyHolder n ns),[.processAll],[]⟩
  | .copyHolder n ns =>
    some ⟨{sh.hold (.destroyHolder n ns) with holding := n :: sh.holding},
      [.stream n (.handleNextEventAsync none),.processAll],[]⟩
  | .destroyHolder n ns => some ⟨{sh.drop with main := .launch ns},[.processAll],sh.run n⟩
  | .wait g => some ⟨{sh with main := if g + 1 < N then .wait (g + 1) else .testDone},[.processAll],[]⟩
  | .testDone =>
    if sh.done then some ⟨{sh with main := .returned sh.exceptPtr},[],[]⟩
    else some ⟨{sh with main := .wait 0, handedOver := false},[.processAll],[]⟩
  | .returned _ => none

def react (job : Job L D E) (N : Nat) (sh : Shared L D E) :
    Frame L D E → Nat → Option (Reaction (Shared L D E) (Frame L D E))
  | .processAll, _ => processAll N sh
  | .stream i f, seed =>
    match pushed job sh i f with
    | some (q,t) => some (push N sh q t)
    | none => (Schedule.Loop.react job ⟨sh.streams i,sh.source⟩ f seed).map fun r =>
      ⟨sh.setStream i r.shared (answer sh.source f),
        r.calls.map (.stream i) ++ (answer sh.source f).toList.map (.doneWaiting i),
        r.spawned.map (.stream i)⟩
  | .doneWaiting i e, _ => some ⟨{sh with exceptionPtr := sh.exceptionPtr.or e},[.decrement i],[]⟩
  | .decrement i, _ => some ⟨{sh.drop with holding := sh.holding.erase i},[],sh.run i⟩
  | .serialTask t, _ =>
    match runQueue job t.wrapper with
    | none => none
    | some q =>
      some ⟨sh,[.stream t.group (.schedule (.runModule t.wrapper t.exceptionPtr)),.finishedTask t.group q],[]⟩
  | .finishedTask group q, 0 => some (finishedTask N sh group q)
  | .finishedTask _ q, _ + 1 => some ⟨sh.setQueue q {sh.queues q with taskChosen := false},[],[]⟩
  | .lastTask g, _ => some ⟨sh.lastTask,[.recycle g],[]⟩
  | .recycle _, _ => some ⟨{sh with deleted := sh.deleted + 1},[],[]⟩

abbrev State (L D E : Type) := Pool (Shared L D E) (Frame L D E)

def Frame.group : Frame L D E → Option Nat
  | .processAll => none
  | .stream i _ | .doneWaiting i _ | .decrement i | .finishedTask i _ | .lastTask i | .recycle i => some i
  | .serialTask t => some t.group

/-- A task in a list that is not done yet belongs to no thread. -/
def parked (sh : Shared L D E) : Frame L D E → Bool
  | .stream i (.schedule (.node l _)) => ((sh.streams i).list l).waiting
  | _ => false

def busy (sh : Shared L D E) (g : Nat) (f : Frame L D E) : Bool :=
  f.group = some g && !parked sh f

def idle (s : State L D E) (g : Nat) : Bool :=
  s.threads.flatten.all fun f => !busy s.shared g f

def blocked (s : State L D E) : Bool :=
  match s.shared.main with
  | .wait g => !idle s g
  | _ => false

def Frame.isProcessAll : Frame L D E → Bool
  | .processAll => true
  | _ => false

def next (job : Job L D E) (N : Nat) (s : State L D E) (a : Nat × Nat) : Option (State L D E) :=
  if (s.top a.1).any Frame.isProcessAll && blocked s then none else s.step (react job N) a.1 a.2

def turns (threads : List (Nat × Nat)) : List (Nat × Nat) :=
  threads.flatMap fun turn => List.replicate turn.1 (turn.2,0)

def initial (L D E : Type) (N : Nat) (source : List Nat) : State L D E where
  threads := [[.processAll]]
  shared :=
    { main := .launch (List.range' 1 (N - 1) ++ [0])
      streams := fun _ => Schedule.fresh E L D 0
      source
      queues := fun _ => ⟨[],false⟩
      refCount := 0
      exceptionPtr := none
      done := false
      exceptPtr := none
      holding := []
      ended := []
      submitted := 0
      executed := 0
      deleted := 0
      late := 0
      handedOver := false }

end Machine
end ToyMtFramework.ProcessAll
