import ToyMtFramework.Core.Activities
import Mathlib.Logic.Function.Basic

/-! One event in a `Schedule` of the TBB framework, as frames on threads.
`Schedule::processAsync`, `Path`, `ModuleWrapper`, the waiting tasks and `Event` are
cut where other threads can interfere. A `WaitingTaskList` is a pool here: a task
is added in one step and may be released at any time once `m_waiting` is false.
A task that a `SerialTaskQueue` holds may be started at any time. -/
namespace ToyMtFramework.Schedule
open Activities Transition

variable {L D E : Type}

inductive ThreadType where
  | threadUnsafe
  | threadSafeBetweenModules
  | threadSafeBetweenInstances
  deriving DecidableEq, Repr

structure Outcome (D E : Type) where
  puts : List (D × Int)
  keep : Bool
  thrown : Option E

/-- A filter or a producer; a filter has no products. `perform` is the body, given
the event index and the values its getters read; what else the body depends on is
in the seed. -/
structure Module (L D E : Type) where
  label : L
  threadType : ThreadType
  getters : List (L × D)
  products : List D
  perform : Nat → Nat → List Int → Outcome D E

structure Job (L D E : Type) where
  filters : List (Module L D E)
  producers : List (Module L D E)
  paths : List (List L)

/-- The wrapper of a filter, or the one in the `DataCache` of a product. -/
inductive Wrapper (L D : Type) where
  | filter (label : L)
  | producer (label : L) (product : D)
  deriving DecidableEq

inductive TaskId (L D : Type) where
  | runModule (w : Wrapper L D)
  | nextFilter (p : Nat)
  | allPathsDone
  deriving DecidableEq

/-- `m_waitingTasks` of a wrapper, `m_callback` of a path. -/
inductive ListId (L D : Type) where
  | waitingTasks (w : Wrapper L D)
  | callback (p : Nat)
  deriving DecidableEq

section Job
variable [DecidableEq L] [DecidableEq D] (job : Job L D E)

def Job.findFilter (label : L) : Option (Module L D E) :=
  job.filters.find? fun m => m.label = label

/-- The entry of `m_lookupMap`; `insert` keeps the first one. -/
def Job.find (label : L) (product : D) : Option (Module L D E) :=
  job.producers.find? fun m => m.label = label ∧ product ∈ m.products

def Job.module : Wrapper L D → Option (Module L D E)
  | .filter label => job.findFilter label
  | .producer label product => job.find label product

def Job.getters (w : Wrapper L D) : List (Wrapper L D) :=
  match job.module w with
  | none => []
  | some m => m.getters.map fun g => .producer g.1 g.2

/-- `runQueue()` is null only for modules that allow concurrent calls. -/
def Job.hasQueue (w : Wrapper L D) : Bool :=
  match job.module w with
  | none => false
  | some m => m.threadType ≠ .threadSafeBetweenInstances

def Job.perform (w : Wrapper L D) (seed index : Nat) (values : List Int) : Outcome D E :=
  match job.module w with
  | none => ⟨[],false,none⟩
  | some m => m.perform seed index values

end Job

def Job.path (job : Job L D E) (p : Nat) : List L :=
  job.paths.getD p []

structure WaitingList (E : Type) where
  waiting : Bool
  exceptionPtr : Option E

structure DataCache where
  value : Int
  wasCached : Bool
  deriving DecidableEq

/-- A successful exchange of `m_workStarted`: how often the wrapper had been reset
when the call added its task and when it exchanged the flag. -/
structure Start (L D : Type) where
  wrapper : Wrapper L D
  added : Nat
  exchanged : Nat
  deriving DecidableEq

structure Request (L D : Type) where
  wrapper : Wrapper L D
  round : Nat
  task : TaskId L D
  deriving DecidableEq

structure Run (L D E : Type) where
  wrapper : Wrapper L D
  round : Nat
  thrown : Option E

structure Shared (L D E : Type) where
  refCount : TaskId L D → Nat
  exceptionPtr : TaskId L D → Option E
  list : ListId L D → WaitingList E
  workStarted : Wrapper L D → Bool
  keep : L → Bool
  cache : L → D → DataCache
  index : Nat → Nat
  eventIndex : Nat
  fatal : Bool
  /-- From here on, what has happened so far: resets of each wrapper, calls of
  `doWorkAsync`, starts and executions of modules, whether this schedule has set the
  fatal flag, and what the callback of this event was released with. -/
  resets : Wrapper L D → Nat
  requests : List (Request L D)
  starts : List (Start L D)
  ran : List (Run L D E)
  setFatal : Bool
  released : List (Option E)

/-- What a thread is about to do. `node` is a task in a waiting list and `queued` one
in a serial queue; some thread gets to them later. -/
inductive Frame (L D E : Type) where
  | runPaths
  | launch (paths : List Nat)
  | runAsync (p : Nat)
  | runFilterAsync (p i : Nat)
  | doWorkAsync (w : Wrapper L D) (t : TaskId L D)
  | startWork (w : Wrapper L D) (added : Nat)
  | prefetch (w : Wrapper L D) (getters : List (Wrapper L D))
  | doneWaitingTask (t : TaskId L D) (e : Option E)
  | decrement (t : TaskId L D)
  | node (l : ListId L D) (t : TaskId L D)
  | execute (t : TaskId L D)
  | queued (w : Wrapper L D) (e : Option E)
  | runModule (w : Wrapper L D) (e : Option E)
  | body (w : Wrapper L D) (getters : List (Wrapper L D)) (values : List Int)
  | doneWaiting (l : ListId L D) (e : Option E)
  | filterFinished (p i : Nat) (e : Option E)
  | callback (e : Option E)

section Machine
variable [DecidableEq L] [DecidableEq D]

def fresh (E : Type) (L D : Type) (eventIndex : Nat) : Shared L D E where
  refCount := fun _ => 0
  exceptionPtr := fun _ => none
  list := fun _ => ⟨true,none⟩
  workStarted := fun _ => false
  keep := fun _ => false
  cache := fun _ _ => ⟨0,false⟩
  index := fun _ => 0
  eventIndex := eventIndex
  fatal := false
  resets := fun _ => 0
  requests := []
  starts := []
  ran := []
  setFatal := false
  released := []

/-- The state right after `Event::reset`, `setEventInfo` and `Schedule::reset`. What the
paths and products have left over from the event before stays until it is overwritten. -/
structure Ready (sh : Shared L D E) (eventIndex : Nat) : Prop where
  refCount : ∀ t, sh.refCount t = 0
  exceptionPtr : ∀ t, sh.exceptionPtr t = none
  waitingTasks : ∀ w, sh.list (.waitingTasks w) = ⟨true,none⟩
  callback : ∀ p, (sh.list (.callback p)).exceptionPtr = none
  workStarted : ∀ w, sh.workStarted w = false
  keep : ∀ label, sh.keep label = false
  wasCached : ∀ label product, (sh.cache label product).wasCached = false
  eventIndex : sh.eventIndex = eventIndex
  fatal : sh.fatal = false
  ran : sh.ran = []
  setFatal : sh.setFatal = false
  released : sh.released = []

omit [DecidableEq L] [DecidableEq D] in
theorem fresh_ready (eventIndex : Nat) : Ready (fresh E L D eventIndex) eventIndex := by
  constructor <;> simp [fresh]

def Shared.hold (sh : Shared L D E) (t : TaskId L D) : Shared L D E :=
  {sh with refCount := fun u => sh.refCount u + if u = t then 1 else 0}

def Shared.drop (sh : Shared L D E) (t : TaskId L D) : Shared L D E :=
  {sh with refCount := fun u => sh.refCount u - if u = t then 1 else 0}

def Shared.dependentTaskFailed (sh : Shared L D E) (t : TaskId L D) (e : Option E) :
    Shared L D E :=
  {sh with exceptionPtr := Function.update sh.exceptionPtr t ((sh.exceptionPtr t).or e)}

def Shared.request (sh : Shared L D E) (w : Wrapper L D) (t : TaskId L D) : Shared L D E :=
  {sh with requests := sh.requests ++ [⟨w,sh.resets w,t⟩]}

def Shared.start (sh : Shared L D E) (w : Wrapper L D) (added : Nat) : Shared L D E where
  __ := sh
  workStarted := Function.update sh.workStarted w true
  starts := sh.starts ++ [⟨w,added,sh.resets w⟩]

def Shared.fail (sh : Shared L D E) : Shared L D E :=
  {sh with fatal := true, setFatal := true}

def Shared.setList (sh : Shared L D E) (l : ListId L D) (value : WaitingList E) : Shared L D E :=
  {sh with list := Function.update sh.list l value}

def Shared.setIndex (sh : Shared L D E) (p i : Nat) : Shared L D E :=
  {sh with index := Function.update sh.index p i}

def putAll (cache : L → D → DataCache) (label : L) (puts : List (D × Int)) : L → D → DataCache :=
  puts.foldl (fun cache put =>
    Function.update cache label (Function.update (cache label) put.1 ⟨put.2,true⟩)) cache

def Shared.get (sh : Shared L D E) : Wrapper L D → Int
  | .filter _ => 0
  | .producer label product => (sh.cache label product).value

/-- What the body leaves behind: `m_keep` is assigned only if `doFilter` returns. -/
def Shared.finish (sh : Shared L D E) (w : Wrapper L D) (outcome : Outcome D E) : Shared L D E where
  __ := sh
  ran := sh.ran ++ [⟨w,sh.resets w,outcome.thrown⟩]
  keep := match w with
    | .filter label =>
      if outcome.thrown.isSome then sh.keep else Function.update sh.keep label outcome.keep
    | .producer _ _ => sh.keep
  cache := match w with
    | .filter _ => sh.cache
    | .producer label _ => putAll sh.cache label outcome.puts

def react (job : Job L D E) (sh : Shared L D E) :
    Frame L D E → Nat → Option (Reaction (Shared L D E) (Frame L D E))
  | .runPaths, _ =>
    if job.paths = [] then some ⟨sh,[.callback none],[]⟩
    else some ⟨sh.hold .allPathsDone,[.launch (List.range job.paths.length)],[]⟩
  | .launch [], _ => some ⟨sh,[.decrement .allPathsDone],[]⟩
  | .launch (p :: ps), _ => some ⟨sh.hold .allPathsDone,[.runAsync p,.launch ps],[]⟩
  | .runAsync p, _ =>
    some ⟨sh.setList (.callback p) ⟨true,none⟩,
      [if job.path p = [] then .doneWaiting (.callback p) none else .runFilterAsync p 0],
      [.node (.callback p) .allPathsDone]⟩
  | .runFilterAsync p i, _ =>
    if sh.fatal then some ⟨sh,[.doneWaiting (.callback p) none],[]⟩
    else match (job.path p)[i]? with
      | none => none
      | some label =>
        some ⟨(sh.setIndex p i).hold (.nextFilter p),[.doWorkAsync (.filter label) (.nextFilter p)],[]⟩
  | .doWorkAsync w t, _ =>
    if (job.module w).isNone then none
    else
      if (sh.list (.waitingTasks w)).waiting then
        some ⟨sh.request w t,[.startWork w (sh.resets w)],[.node (.waitingTasks w) t]⟩
      else
        some ⟨sh.request w t,[.doneWaitingTask t (sh.list (.waitingTasks w)).exceptionPtr,
          .startWork w (sh.resets w)],[]⟩
  | .startWork w added, _ =>
    if sh.workStarted w then some ⟨sh,[],[]⟩
    else
      some ⟨(sh.start w added).hold (.runModule w),[.prefetch w (job.getters w)],[]⟩
  | .prefetch w [], _ => some ⟨sh,[.decrement (.runModule w)],[]⟩
  | .prefetch w (g :: gs), _ =>
    some ⟨sh.hold (.runModule w),[.doWorkAsync g (.runModule w),.prefetch w gs],[]⟩
  | .doneWaitingTask t e, _ => some ⟨sh.dependentTaskFailed t e,[.decrement t],[]⟩
  | .decrement t, _ =>
    some ⟨sh.drop t,[],if sh.refCount t = 1 then [.execute t] else []⟩
  | .node l t, _ =>
    if (sh.list l).waiting then none
    else some ⟨sh,[.doneWaitingTask t (sh.list l).exceptionPtr],[]⟩
  | .execute (.runModule w), _ =>
    if job.hasQueue w then some ⟨sh,[],[.queued w (sh.exceptionPtr (.runModule w))]⟩
    else some ⟨sh,[.runModule w (sh.exceptionPtr (.runModule w))],[]⟩
  | .execute (.nextFilter p), _ =>
    some ⟨sh,[.filterFinished p (sh.index p) (sh.exceptionPtr (.nextFilter p))],[]⟩
  | .execute .allPathsDone, _ =>
    let e := sh.exceptionPtr .allPathsDone
    some ⟨if e.isSome then sh.fail else sh,[.callback e],[]⟩
  | .queued w e, _ => some ⟨sh,[.runModule w e],[]⟩
  | .runModule w (some e), _ => some ⟨sh,[.doneWaiting (.waitingTasks w) (some e)],[]⟩
  | .runModule w none, _ => some ⟨sh,[.body w (job.getters w) []],[]⟩
  | .body w (g :: gs) values, _ => some ⟨sh,[.body w gs (values ++ [sh.get g])],[]⟩
  | .body w [] values, seed =>
    let outcome := job.perform w seed sh.eventIndex values
    some ⟨sh.finish w outcome,[.doneWaiting (.waitingTasks w) outcome.thrown],[]⟩
  | .doneWaiting l e, _ => some ⟨sh.setList l ⟨false,e⟩,[],[]⟩
  | .filterFinished p i e, _ =>
    match (job.path p)[i]? with
    | none => none
    | some label =>
      if e.isNone ∧ ¬sh.fatal ∧ sh.keep label ∧ i + 1 < (job.path p).length then
        some ⟨sh,[.runFilterAsync p (i + 1)],[]⟩
      else some ⟨sh,[.doneWaiting (.callback p) e],[]⟩
  | .callback e, _ => some ⟨{sh with released := sh.released ++ [e]},[],[]⟩

inductive Action where
  | act (thread seed : Nat)
  | otherStreamFails
  deriving DecidableEq

def turns (threads : List (Nat × Nat)) : List Action :=
  threads.flatMap fun turn => List.replicate turn.1 (.act turn.2 0)

abbrev State (L D E : Type) := Pool (Shared L D E) (Frame L D E)

def next (job : Job L D E) (s : State L D E) : Action → Option (State L D E)
  | .act thread seed => s.step (react job) thread seed
  | .otherStreamFails => some {s with shared := {s.shared with fatal := true}}

def processing (sh : Shared L D E) : State L D E :=
  ⟨sh,[[.runPaths]]⟩

end Machine
end ToyMtFramework.Schedule
