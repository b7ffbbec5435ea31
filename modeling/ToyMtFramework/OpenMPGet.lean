import ToyMtFramework.Core.SerialQueues
import ToyMtFramework.Schedule
import ToyMtFramework.SerialTaskQueue

/-! The modules of all streams of the OpenMP framework, whose bodies call `edm::Event::get`. A
nested parallel region ends when no frame of it is left; which region a task of another thread is
spawned in is a choice. As for the TBB schedule a `WaitingTaskList` is a pool, and a task of a
`SerialTaskQueue` starts at any time when its queue has chosen none and is not paused. -/
namespace ToyMtFramework.OpenMP
open Activities Transition
open ToyMtFramework.Schedule (ThreadType Wrapper WaitingList DataCache)

variable {L D E : Type}

inductive Program (L D E : Type) where
  | get (label : L) (product : D) (next : Except E Int → Program L D E)
  | getPrefetched (label : L) (product : D) (next : Int → Program L D E)
  | put (product : D) (value : Int) (next : Program L D E)
  | finish
  | throw (e : E)

/-- What the body depends on besides the answers is in the seed. -/
structure Module (L D E : Type) where
  label : L
  threadType : ThreadType
  getters : List (L × D)
  products : List D
  perform : Nat → Program L D E

structure Job (L D E : Type) where
  filters : List (Module L D E)
  producers : List (Module L D E)

/-- The wrapper of a filter or of a product's producer, for the event of one stream. -/
structure ModuleWrapper (L D : Type) where
  stream : Nat
  key : Wrapper L D
  deriving DecidableEq

inductive Queue (L D : Type) where
  | nonThreadSafe
  | own (w : Wrapper L D)
  deriving DecidableEq

/-- A task is named by the wrapper it runs the module of, or by the region and the product that a
`get` waits for; the tasks of the paths are outside. -/
inductive TaskId (L D : Type) where
  | runModule (w : ModuleWrapper L D)
  | doneTask (region : Nat) (target : ModuleWrapper L D)
  | outside
  deriving DecidableEq

section Job
variable [DecidableEq L] [DecidableEq D] (job : Job L D E)

/-- The producer in the entry of `m_lookupMap`; `insert` keeps the first one. -/
def Job.producerOf : Wrapper L D → Option Nat
  | .filter _ => none
  | .producer label product =>
    job.producers.findIdx? fun m => decide (m.label = label ∧ product ∈ m.products)

def Job.module : Wrapper L D → Option (Module L D E)
  | .filter label => job.filters.find? fun m => m.label = label
  | .producer label product => (job.producerOf (.producer label product)).bind (job.producers[·]?)

def Job.getters (w : ModuleWrapper L D) : List (ModuleWrapper L D) :=
  match job.module w.key with
  | none => []
  | some m => m.getters.map fun g => ⟨w.stream,.producer g.1 g.2⟩

/-- The copies of a wrapper in the other streams share its queue. -/
def Job.runQueue (w : ModuleWrapper L D) : Option (Queue L D) :=
  (job.module w.key).bind fun m => match m.threadType with
    | .threadUnsafe => some .nonThreadSafe
    | .threadSafeBetweenModules => some (.own w.key)
    | .threadSafeBetweenInstances => none

def Job.isThreadSafe (w : ModuleWrapper L D) : Bool :=
  (job.module w.key).all fun m => m.threadType ≠ .threadUnsafe

def Job.perform (w : ModuleWrapper L D) (seed : Nat) : Program L D E :=
  match job.module w.key with
  | none => .finish
  | some m => m.perform seed

def Job.SameProducer (v w : ModuleWrapper L D) : Prop :=
  v.stream = w.stream ∧ job.producerOf v.key = job.producerOf w.key

instance (v w : ModuleWrapper L D) : Decidable (job.SameProducer v w) :=
  inferInstanceAs (Decidable (_ ∧ _))

end Job

inductive QueueCall where
  | pause
  | resume
  deriving DecidableEq

structure Run (L D E : Type) where
  wrapper : ModuleWrapper L D
  thrown : Option E

/-- A call of `edm::Event::get` that has returned, with `m_pauseCount` at its beginning and end. -/
structure Got (L D E : Type) where
  caller : ModuleWrapper L D
  target : ModuleWrapper L D
  result : Except E Int
  found : Nat
  left : Nat

structure Shared (L D E : Type) where
  refCount : TaskId L D → Nat
  exceptionPtr : TaskId L D → Option E
  list : ModuleWrapper L D → WaitingList E
  workStarted : ModuleWrapper L D → Bool
  cache : ModuleWrapper L D → DataCache
  taskChosen : Queue L D → Bool
  /-- Of `s_non_thread_safe_queue`. -/
  pauseCount : Nat
  regions : Nat
  /-- From here on, what has happened in the current event of each stream: the value put last, the
  executions that have ended, and what the waiting tasks of a wrapper were told; and in the whole run:
  the calls to `s_non_thread_safe_queue`, the modules that called `edm::Event::get`, and what they got. -/
  put : ModuleWrapper L D → Option Int
  ran : List (Run L D E)
  outcomes : ModuleWrapper L D → List (Option E)
  queueCalls : List QueueCall
  callers : List (ModuleWrapper L D)
  gets : List (Got L D E)

/-- What a thread is about to do. `node` is a task in a waiting list and `queued` one in a serial
queue. `get` is inside `Event::get`, and `regionEnd` at the end of its parallel region. -/
inductive Stage (L D E : Type) where
  | doWorkAsync (w : ModuleWrapper L D) (t : TaskId L D)
  | startWork (w : ModuleWrapper L D)
  | prefetch (w : ModuleWrapper L D) (getters : List (ModuleWrapper L D))
  | doneWaitingTask (t : TaskId L D) (e : Option E)
  | decrement (t : TaskId L D)
  | node (w : ModuleWrapper L D) (t : TaskId L D)
  | execute (w : ModuleWrapper L D)
  | queued (w : ModuleWrapper L D) (e : Option E)
  | finishedTask (q : Queue L D)
  | runModule (w : ModuleWrapper L D) (e : Option E)
  | body (w : ModuleWrapper L D) (program : Program L D E)
  | get (w target : ModuleWrapper L D) (found : Nat) (next : Except E Int → Program L D E)
  | regionEnd (k : Nat) (w target : ModuleWrapper L D) (found : Nat) (next : Except E Int → Program L D E)
  | doneWaiting (w : ModuleWrapper L D) (e : Option E)

/-- The nested region that the thread works for, if any. -/
structure Frame (L D E : Type) where
  region : Option Nat
  stage : Stage L D E

/-- What the body of a module depends on, and the region of the thread that takes a task over. -/
structure Choice where
  seed : Nat
  region : Option Nat
  deriving DecidableEq

section Machine
variable [DecidableEq L] [DecidableEq D]

def Shared.hold (sh : Shared L D E) (t : TaskId L D) : Shared L D E :=
  {sh with refCount := fun u => sh.refCount u + if u = t then 1 else 0}

def Shared.drop (sh : Shared L D E) (t : TaskId L D) : Shared L D E :=
  {sh with refCount := fun u => sh.refCount u - if u = t then 1 else 0}

def Shared.dependentTaskFailed (sh : Shared L D E) (t : TaskId L D) (e : Option E) : Shared L D E :=
  {sh with exceptionPtr := Function.update sh.exceptionPtr t ((sh.exceptionPtr t).or e)}

def Shared.start (sh : Shared L D E) (w : ModuleWrapper L D) : Shared L D E where
  __ := sh.hold (.runModule w)
  workStarted := Function.update sh.workStarted w true
  exceptionPtr := Function.update sh.exceptionPtr (.runModule w) none

def Shared.setValue (sh : Shared L D E) (w : ModuleWrapper L D) (value : Int) : Shared L D E where
  __ := sh
  cache := Function.update sh.cache w ⟨value,true⟩
  put := Function.update sh.put w (some value)

def Shared.ended (sh : Shared L D E) (w : ModuleWrapper L D) (e : Option E) : Shared L D E :=
  {sh with ran := sh.ran ++ [⟨w,e⟩]}

def Shared.doneWaiting (sh : Shared L D E) (w : ModuleWrapper L D) (e : Option E) : Shared L D E where
  __ := sh
  list := Function.update sh.list w ⟨false,e⟩
  outcomes := Function.update sh.outcomes w (sh.outcomes w ++ [e])

def Shared.choose (sh : Shared L D E) (q : Queue L D) (chosen : Bool) : Shared L D E :=
  {sh with taskChosen := Function.update sh.taskChosen q chosen}

def Shared.resume (sh : Shared L D E) : Shared L D E where
  __ := sh
  pauseCount := SerialTaskQueue.decrement sh.pauseCount
  queueCalls := sh.queueCalls ++ [.resume]

/-- `pickNextTask` may choose a task of the queue. Only the first queue is ever resumed, and none is
ever paused. -/
def Shared.mayPick (sh : Shared L D E) (q : Queue L D) : Bool :=
  !sh.taskChosen q && (q != .nonThreadSafe || sh.pauseCount == 0)

def Shared.beginGet (job : Job L D E) (sh : Shared L D E) (w : ModuleWrapper L D) : Shared L D E :=
  let sh := {sh with callers := sh.callers ++ [w]}
  if job.isThreadSafe w then sh else sh.resume

def Shared.endGet (sh : Shared L D E) (w target : ModuleWrapper L D) (found : Nat)
    (result : Except E Int) : Shared L D E :=
  {sh with gets := sh.gets ++ [⟨w,target,result,found,sh.pauseCount⟩]}

/-- What `get` returns or rethrows when it has waited. -/
def Shared.waited (sh : Shared L D E) (k : Nat) (target : ModuleWrapper L D) : Except E Int :=
  match sh.exceptionPtr (.doneTask k target) with
  | some e => .error e
  | none => .ok (sh.cache target).value

/-- The last owner of a task spawns it. A `doneTask` belongs to the `get` as well, which destroys it. -/
def TaskId.spawned (region : Option Nat) : TaskId L D → List (Frame L D E)
  | .runModule w => [⟨region,.execute w⟩]
  | .doneTask _ _ | .outside => []

def react (job : Job L D E) (sh : Shared L D E) (f : Frame L D E) (choice : Choice) :
    Option (Reaction (Shared L D E) (Frame L D E)) :=
  let r := f.region
  match f.stage with
  | .doWorkAsync w t =>
    if (job.module w.key).isNone then none
    else if (sh.list w).waiting then some ⟨sh,[⟨r,.startWork w⟩],[⟨none,.node w t⟩]⟩
    else some ⟨sh,[⟨r,.doneWaitingTask t (sh.list w).exceptionPtr⟩,⟨r,.startWork w⟩],[]⟩
  | .startWork w =>
    if sh.workStarted w then some ⟨sh,[],[]⟩
    else some ⟨sh.start w,[⟨r,.prefetch w (job.getters w)⟩],[]⟩
  | .prefetch w [] => some ⟨sh,[⟨r,.decrement (.runModule w)⟩],[]⟩
  | .prefetch w (g :: gs) =>
    some ⟨sh.hold (.runModule w),[⟨r,.doWorkAsync g (.runModule w)⟩,⟨r,.prefetch w gs⟩],[]⟩
  | .doneWaitingTask t e => some ⟨sh.dependentTaskFailed t e,[⟨r,.decrement t⟩],[]⟩
  | .decrement t => some ⟨sh.drop t,[],if sh.refCount t = 1 then t.spawned r else []⟩
  | .node w t =>
    if (sh.list w).waiting then none
    else some ⟨sh,[⟨choice.region,.doneWaitingTask t (sh.list w).exceptionPtr⟩],[]⟩
  | .execute w =>
    match job.runQueue w with
    | none => some ⟨sh,[⟨r,.runModule w (sh.exceptionPtr (.runModule w))⟩],[]⟩
    | some _ => some ⟨sh,[],[⟨none,.queued w (sh.exceptionPtr (.runModule w))⟩]⟩
  | .queued w e =>
    match job.runQueue w with
    | none => none
    | some q =>
      if sh.mayPick q then
        some ⟨sh.choose q true,[⟨choice.region,.runModule w e⟩,⟨choice.region,.finishedTask q⟩],[]⟩
      else none
  | .finishedTask q => some ⟨sh.choose q false,[],[]⟩
  | .runModule w none => some ⟨sh,[⟨r,.body w (job.perform w choice.seed)⟩],[]⟩
  | .runModule w (some e) => some ⟨sh,[⟨r,.doneWaiting w (some e)⟩],[]⟩
  | .body w (.get label product next) =>
    let target : ModuleWrapper L D := ⟨w.stream,.producer label product⟩
    if (job.producerOf target.key).isNone then none
    else some ⟨sh.beginGet job w,[⟨r,.get w target sh.pauseCount next⟩],[]⟩
  | .body w (.getPrefetched label product next) =>
    let target : ModuleWrapper L D := ⟨w.stream,.producer label product⟩
    if (sh.cache target).wasCached then some ⟨sh,[⟨r,.body w (next (sh.cache target).value)⟩],[]⟩ else none
  | .body w (.put product value next) =>
    match w.key with
    | .filter _ => none
    | .producer label _ =>
      let target : ModuleWrapper L D := ⟨w.stream,.producer label product⟩
      if (job.producerOf target.key).isNone then none
      else some ⟨sh.setValue target value,[⟨r,.body w next⟩],[]⟩
  | .body w .finish => some ⟨sh.ended w none,[⟨r,.doneWaiting w none⟩],[]⟩
  | .body w (.throw e) => some ⟨sh.ended w (some e),[⟨r,.doneWaiting w (some e)⟩],[]⟩
  | .get w target found next =>
    if (sh.cache target).wasCached then
      let result := .ok (sh.cache target).value
      some ⟨sh.endGet w target found result,[⟨r,.body w (next result)⟩],[]⟩
    else
      let k := sh.regions
      some ⟨{sh.hold (.doneTask k target) with regions := k + 1},
        [⟨some k,.doWorkAsync target (.doneTask k target)⟩,⟨r,.regionEnd k w target found next⟩],[]⟩
  | .regionEnd k w target found next =>
    let result := sh.waited k target
    some ⟨sh.endGet w target found result,[⟨r,.body w (next result)⟩],[]⟩
  | .doneWaiting w e => some ⟨sh.doneWaiting w e,[],[]⟩

/-- The end of a region waits until no frame of the region is left. -/
def regions : Queues (Frame L D E) Nat where
  waits f := match f.stage with
    | .regionEnd k _ _ _ _ => some k
    | _ => none
  executes f := f.region

/-- `Event::reset` and `Schedule::reset` of a stream. A cache keeps its value. -/
def Shared.reset (sh : Shared L D E) (stream : Nat) : Shared L D E where
  __ := sh
  list w := if w.stream = stream then ⟨true,none⟩ else sh.list w
  workStarted w := if w.stream = stream then false else sh.workStarted w
  cache w := if w.stream = stream then ⟨(sh.cache w).value,false⟩ else sh.cache w
  put w := if w.stream = stream then none else sh.put w
  ran := sh.ran.filter fun run => run.wrapper.stream ≠ stream
  outcomes w := if w.stream = stream then [] else sh.outcomes w

inductive Action (L D : Type) where
  | act (thread : Nat) (choice : Choice)
  | request (w : ModuleWrapper L D)
  | reset (stream : Nat)
  deriving DecidableEq

abbrev State (L D E : Type) := Pool (Shared L D E) (Frame L D E)

def next (job : Job L D E) (s : State L D E) : Action L D → Option (State L D E)
  | .act thread choice => regions.step (react job) s thread choice
  | .request w => some ⟨s.shared.hold .outside,s.threads ++ [[⟨none,.doWorkAsync w .outside⟩]]⟩
  | .reset stream => some {s with shared := s.shared.reset stream}

end Machine

def initial (L D E : Type) : State L D E where
  threads := []
  shared :=
    { refCount := fun _ => 0
      exceptionPtr := fun _ => none
      list := fun _ => ⟨true,none⟩
      workStarted := fun _ => false
      cache := fun _ => ⟨0,false⟩
      taskChosen := fun _ => false
      pauseCount := 0
      regions := 0
      put := fun _ => none
      ran := []
      outcomes := fun _ => []
      queueCalls := []
      callers := []
      gets := [] }

end ToyMtFramework.OpenMP
