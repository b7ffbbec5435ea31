import ToyMtFramework.Core.DispatchGroups
import ToyMtFramework.ScheduleFrameworks

/-! One event in a `Schedule` of the Dispatch framework, as frames on threads, for the same jobs.
`Schedule::process`, `Path`, the wrappers and `Event` are cut where other threads can interfere.
A block that a group or a queue is given is a frame until a thread executes it. Blocks of other
schedules in the serial queues can only make those of this one wait. -/
namespace ToyMtFramework.DispatchSchedule
open Activities Transition
open Schedule (Job Wrapper DataCache Entry)

variable {L D E : Type}

/-- A `FilterOnPathWrapper` or a `ProducerWrapper`. -/
inductive Worker (L D : Type) where
  | filterOnPath (p i : Nat) (label : L)
  | producer (label : L) (product : D)
  deriving DecidableEq

def Worker.wrapper : Worker L D → Wrapper L D
  | .filterOnPath _ _ label => .filter label
  | .producer label product => .producer label product

/-- `m_allPathsDoneGroup`, `m_prefetchGroup` of a wrapper and `m_group` of a `ProducerWrapper`. -/
inductive GroupId (L D : Type) where
  | allPathsDone
  | prefetch (w : Wrapper L D)
  | produced (w : Wrapper L D)
  deriving DecidableEq

inductive QueueId (L D : Type) where
  | nonThreadSafe
  | runQueue (w : Wrapper L D)
  deriving DecidableEq

inductive Task (L D : Type) where
  | doWorkTask (t : Worker L D)
  | suspendRunQueue (t : Worker L D)
  | suspendUnsafeQueue (t : Worker L D)

def Task.queue : Task L D → QueueId L D
  | .doWorkTask t | .suspendRunQueue t => .runQueue t.wrapper
  | .suspendUnsafeQueue _ => .nonThreadSafe

inductive Block (L D : Type) where
  | work (t : Worker L D)
  | doneWithGet (w : Wrapper L D)
  | scheduleCallback

/-- What a thread is about to do. From `prefetch` to `notifyGet` the frames of `Module::prefetchAsync`
have the getters that are left. `direct` tells that `filterAsync` has called `doWork`. -/
inductive Frame (L D E : Type) where
  | process (paths : List Nat)
  | processPresentPath (p : Nat)
  | runAsync (p : Nat)
  | runFilterAsync (p i : Nat)
  | doPrefetchAndWork (t : Worker L D)
  | requestPrefetch (t : Worker L D)
  | prefetch (t : Worker L D) (getters : List (Wrapper L D))
  | doProduceAsync (t : Worker L D) (g : Wrapper L D) (getters : List (Wrapper L D))
  | produceAsync (t : Worker L D) (g : Wrapper L D) (getters : List (Wrapper L D))
  | waitForGet (t : Worker L D) (g : Wrapper L D) (getters : List (Wrapper L D))
  | notifyGet (t : Worker L D) (g : Wrapper L D) (getters : List (Wrapper L D))
  | doProduceAsyncImpl (g : Wrapper L D)
  | notify (g : GroupId L D) (b : Block L D)
  | notified (g : GroupId L D) (since : Nat) (b : Block L D)
  | block (b : Block L D)
  | leave (g : GroupId L D)
  | queued (turn : Nat) (task : Task L D)
  | task (task : Task L D)
  | addUnsafe (t : Worker L D)
  | addWork (t : Worker L D)
  | taskEnds (q : QueueId L D)
  | doWork (t : Worker L D) (direct : Bool)
  | body (t : Worker L D) (direct : Bool) (getters : List (Wrapper L D)) (values : List Int)
  | put (t : Worker L D) (direct : Bool) (puts : List (D × Int))
  | setWasRun (t : Worker L D) (direct : Bool)
  | worked (t : Worker L D) (direct : Bool)
  | workEnds (t : Worker L D)
  | resumeRunQueue (t : Worker L D)
  | doNextIfSuccess (p i : Nat) (keep success : Bool)
  | pathCallback (success : Bool)

structure Shared (L D E : Type) where
  groups : DispatchGroups (GroupId L D)
  queues : DispatchQueues (QueueId L D)
  requestedPrefetch : Wrapper L D → Bool
  wasRun : Wrapper L D → Bool
  keep : L → Bool
  cache : L → D → DataCache
  eventIndex : Nat
  fatalJobErrorOccured : Bool
  /-- From here on, what has happened in the event: the executions of `filter` and `produce` and what
  the callback of the schedule was called with. -/
  log : List (Entry L D E)
  called : List Bool

def Shared.withGroups (sh : Shared L D E) (groups : DispatchGroups (GroupId L D)) : Shared L D E :=
  {sh with groups := groups}

def Shared.withQueues (sh : Shared L D E) (queues : DispatchQueues (QueueId L D)) : Shared L D E :=
  {sh with queues := queues}

def producerOf : Wrapper L D → Option (Worker L D)
  | .filter _ => none
  | .producer label product => some (.producer label product)

section Machine
variable [DecidableEq L] [DecidableEq D]

def Shared.addTask (sh : Shared L D E) (task : Task L D) : Shared L D E :=
  sh.withQueues (sh.queues.add task.queue)

def Shared.waits (sh : Shared L D E) (task : Task L D) : Frame L D E :=
  .queued (sh.queues.added task.queue) task

def Shared.wasCached (sh : Shared L D E) : Wrapper L D → Bool
  | .filter _ => false
  | .producer label product => (sh.cache label product).wasCached

def Shared.get (sh : Shared L D E) : Wrapper L D → Int
  | .filter _ => 0
  | .producer label product => (sh.cache label product).value

def Shared.setValue (sh : Shared L D E) (label : L) (product : D) (value : Int) : Shared L D E where
  __ := sh
  cache := Function.update sh.cache label (Function.update (sh.cache label) product ⟨value,true⟩)

def Shared.setWasRun (sh : Shared L D E) (w : Wrapper L D) : Shared L D E :=
  {sh with wasRun := Function.update sh.wasRun w true}

def isUnsafe (job : Job L D E) (w : Wrapper L D) : Bool :=
  match job.module w with
  | none => false
  | some m => m.threadType = .threadUnsafe

/-- The body has returned; a filter leaves its decision and a producer its puts. -/
def Shared.ran (sh : Shared L D E) (t : Worker L D) (outcome : Schedule.Outcome D E) : Shared L D E where
  __ := sh
  log := sh.log ++ [.performed t.wrapper outcome]
  keep := match t with
    | .filterOnPath _ _ label => Function.update sh.keep label outcome.keep
    | .producer _ _ => sh.keep

def Worker.puts : Worker L D → Schedule.Outcome D E → List (D × Int)
  | .filterOnPath _ _ _, _ => []
  | .producer _ _, outcome => outcome.puts

def Shared.informs (sh : Shared L D E) : Worker L D → Frame L D E
  | .filterOnPath p i label => .doNextIfSuccess p i (sh.keep label) true
  | .producer label product => .leave (.produced (.producer label product))

def react (job : Job L D E) (sh : Shared L D E) :
    Frame L D E → Nat → Option (Reaction (Shared L D E) (Frame L D E))
  | .process [], _ =>
    if job.paths = [] then some ⟨{sh with called := sh.called ++ [true]},[],[]⟩
    else some ⟨sh,[.notify .allPathsDone .scheduleCallback],[]⟩
  | .process (p :: ps), _ =>
    some ⟨sh.withGroups (sh.groups.enter .allPathsDone),[.process ps],[.processPresentPath p]⟩
  | .processPresentPath p, _ =>
    if sh.fatalJobErrorOccured then some ⟨sh,[.leave .allPathsDone],[]⟩
    else some ⟨sh.withGroups (sh.groups.enter .allPathsDone),[.runAsync p,.leave .allPathsDone],[]⟩
  | .runAsync p, _ =>
    some ⟨sh,[if job.path p = [] then .pathCallback true else .runFilterAsync p 0],[]⟩
  | .runFilterAsync p i, _ =>
    if sh.fatalJobErrorOccured then some ⟨sh,[.pathCallback true],[]⟩
    else match (job.path p)[i]? with
      | none => none
      | some label =>
        -- `filterAsync`
        if sh.wasRun (.filter label) then some ⟨sh,[.doWork (.filterOnPath p i label) true],[]⟩
        else some ⟨sh,[.doPrefetchAndWork (.filterOnPath p i label)],[]⟩
  | .doPrefetchAndWork t, _ =>
    if (job.module t.wrapper).isNone then none
    else some ⟨sh.withGroups (sh.groups.enter (.prefetch t.wrapper)),[.requestPrefetch t],[]⟩
  | .requestPrefetch t, _ =>
    if job.getters t.wrapper = [] ∨ sh.requestedPrefetch t.wrapper then some ⟨sh,[.prefetch t []],[]⟩
    else some ⟨{sh with requestedPrefetch := Function.update sh.requestedPrefetch t.wrapper true},
      [.prefetch t (job.getters t.wrapper)],[]⟩
  | .prefetch t [], _ =>
    some ⟨sh,[.leave (.prefetch t.wrapper),.notify (.prefetch t.wrapper) (.work t)],[]⟩
  | .prefetch t (g :: gs), _ =>
    -- `getAsyncImpl`, which ends the process where nothing is registered for the getter
    if (job.module g).isNone then none
    else if sh.wasCached g then some ⟨sh,[.prefetch t gs],[]⟩
    else some ⟨sh,[.doProduceAsync t g gs],[]⟩
  | .doProduceAsync t g gs, _ =>
    some ⟨sh,[if sh.wasRun g then .waitForGet t g gs else .produceAsync t g gs],[]⟩
  | .produceAsync t g gs, _ =>
    some ⟨sh.withGroups (sh.groups.enter (.produced g)),[.waitForGet t g gs],[.doProduceAsyncImpl g]⟩
  | .waitForGet t g gs, _ =>
    some ⟨sh.withGroups (sh.groups.enter (.prefetch t.wrapper)),[.notifyGet t g gs],[]⟩
  | .notifyGet t g gs, _ =>
    some ⟨sh,[.notify (.produced g) (.doneWithGet t.wrapper),.prefetch t gs],[]⟩
  | .doProduceAsyncImpl g, _ =>
    match producerOf g with
    | none => none
    | some t =>
      if sh.wasRun g then some ⟨sh,[.leave (.produced g)],[]⟩
      else some ⟨sh.withGroups (sh.groups.enter (.produced g)),[.doPrefetchAndWork t,.leave (.produced g)],[]⟩
  | .notify g b, _ =>
    if sh.groups.count g = 0 then some ⟨sh,[],[.block b]⟩
    else some ⟨sh,[],[.notified g (sh.groups.emptied g) b]⟩
  | .notified g since b, _ =>
    if since < sh.groups.emptied g then some ⟨sh,[.block b],[]⟩ else none
  | .block (.doneWithGet w), _ => some ⟨sh,[.leave (.prefetch w)],[]⟩
  | .block .scheduleCallback, _ =>
    some ⟨{sh with called := sh.called ++ [!sh.fatalJobErrorOccured]},[],[]⟩
  | .block (.work t), _ =>
    let task := if isUnsafe job t.wrapper then Task.suspendRunQueue t else .doWorkTask t
    some ⟨sh.addTask task,[],[sh.waits task]⟩
  | .leave g, _ => some ⟨sh.withGroups (sh.groups.leave g),[],[]⟩
  | .queued turn task, _ =>
    (sh.queues.start task.queue turn).map fun queues => ⟨sh.withQueues queues,[.task task],[]⟩
  | .task (.doWorkTask t), _ => some ⟨sh,[.doWork t false],[]⟩
  | .task (.suspendRunQueue t), _ =>
    some ⟨sh.withQueues (sh.queues.suspend (.runQueue t.wrapper)),[.addUnsafe t],[]⟩
  | .addUnsafe t, _ =>
    some ⟨sh.addTask (.suspendUnsafeQueue t),[.taskEnds (.runQueue t.wrapper)],[sh.waits (.suspendUnsafeQueue t)]⟩
  | .task (.suspendUnsafeQueue t), _ =>
    some ⟨sh.withQueues (sh.queues.suspend .nonThreadSafe),[.addWork t],[]⟩
  | .addWork t, _ => some ⟨sh,[.taskEnds .nonThreadSafe],[.doWork t false]⟩
  | .taskEnds q, _ => some ⟨sh.withQueues (sh.queues.finish q),[],[]⟩
  | .doWork t direct, _ =>
    if sh.wasRun t.wrapper then some ⟨sh,[.worked t direct],[]⟩
    else some ⟨sh,[.body t direct (job.getters t.wrapper) []],[]⟩
  | .body t direct (g :: gs) values, _ =>
    -- the assertion in `Event::get`
    if sh.wasCached g then some ⟨sh,[.body t direct gs (values ++ [sh.get g])],[]⟩ else none
  | .body t direct [] values, seed =>
    let outcome := job.perform t.wrapper seed sh.eventIndex values
    -- an exception that leaves a block ends the process
    if outcome.thrown.isSome then none else some ⟨sh.ran t outcome,[.put t direct (t.puts outcome)],[]⟩
  | .put t direct [], _ => some ⟨sh,[.setWasRun t direct],[]⟩
  | .put t direct (put :: puts), _ =>
    match t with
    | .filterOnPath _ _ _ => none
    | .producer label _ =>
      if (job.find label put.1).isNone then none
      else some ⟨sh.setValue label put.1 put.2,[.put t direct puts],[]⟩
  | .setWasRun t direct, _ => some ⟨sh.setWasRun t.wrapper,[.worked t direct],[]⟩
  | .worked t direct, _ => some ⟨sh,sh.informs t :: if direct then [] else [.workEnds t],[]⟩
  | .workEnds t, _ =>
    if isUnsafe job t.wrapper then
      some ⟨sh.withQueues (sh.queues.resume .nonThreadSafe),[.resumeRunQueue t],[]⟩
    else some ⟨sh.withQueues (sh.queues.finish (.runQueue t.wrapper)),[],[]⟩
  | .resumeRunQueue t, _ => some ⟨sh.withQueues (sh.queues.resume (.runQueue t.wrapper)),[],[]⟩
  | .doNextIfSuccess p i keep false, _ => some ⟨sh,[.pathCallback false,.doNextIfSuccess p i keep true],[]⟩
  | .doNextIfSuccess p i keep true, _ =>
    if ¬sh.fatalJobErrorOccured ∧ keep ∧ i + 1 < (job.path p).length then
      some ⟨sh,[.runFilterAsync p (i + 1)],[]⟩
    else some ⟨sh,[.pathCallback true],[]⟩
  | .pathCallback success, _ =>
    some ⟨{sh with fatalJobErrorOccured := sh.fatalJobErrorOccured || !success},[.leave .allPathsDone],[]⟩

structure Ready (sh : Shared L D E) (eventIndex : Nat) : Prop where
  count : ∀ g, sh.groups.count g = 0
  overLeft : sh.groups.overLeft = false
  queues : ∀ q, sh.queues.Quiet q 0
  overResumed : sh.queues.overResumed = false
  requestedPrefetch : ∀ w, sh.requestedPrefetch w = false
  wasRun : ∀ w, sh.wasRun w = false
  keep : ∀ label, sh.keep label = false
  wasCached : ∀ w, sh.wasCached w = false
  eventIndex : sh.eventIndex = eventIndex
  fatalJobErrorOccured : sh.fatalJobErrorOccured = false
  log : sh.log = []
  called : sh.called = []

abbrev State (L D E : Type) := Pool (Shared L D E) (Frame L D E)

def next (job : Job L D E) (s : State L D E) (a : Nat × Nat) : Option (State L D E) :=
  s.step (react job) a.1 a.2

def acts (threads : List (Nat × Nat)) : List (Nat × Nat) :=
  threads.flatMap fun turn => List.replicate turn.1 (turn.2,0)

def processing (job : Job L D E) (sh : Shared L D E) : State L D E :=
  ⟨sh,[[.process (List.range job.paths.length)]]⟩

def fresh (E L D : Type) (eventIndex : Nat) : Shared L D E where
  groups := ⟨fun _ => 0,fun _ => 0,false⟩
  queues := .empty
  requestedPrefetch := fun _ => false
  wasRun := fun _ => false
  keep := fun _ => false
  cache := fun _ _ => ⟨0,false⟩
  eventIndex
  fatalJobErrorOccured := false
  log := []
  called := []

omit [DecidableEq L] [DecidableEq D] in
theorem fresh_ready (eventIndex : Nat) : Ready (fresh E L D eventIndex) eventIndex := by
  constructor
  case queues => exact fun q => DispatchQueues.empty_quiet q
  case wasCached =>
    intro w
    cases w <;> rfl
  all_goals simp [fresh,DispatchQueues.empty]

end Machine
end ToyMtFramework.DispatchSchedule
