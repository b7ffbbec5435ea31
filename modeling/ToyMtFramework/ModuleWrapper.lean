import ToyMtFramework.Core.Activities
import ToyMtFramework.SerialTaskQueue

/-! One `ModuleWrapper` of a module without `acquire`, round after round: `doWorkAsync`, the task
that runs when the prefetched items are there, and `runModuleAfterAsyncPrefetch`. How an item
ends, and whether the body throws, is the choice of the thread. The two frameworks differ in the
task that runs the module: TBB has one in the wrapper, OpenMP makes one for each round. A
`WaitingTaskList` is a pool, and a task that a `SerialTaskQueue` holds may start at any time. -/
namespace ToyMtFramework.ModuleWrapper
open Activities Transition
open SerialTaskQueue (Framework)

variable {E : Type}

structure Shared (E : Type) where
  refCount : Nat
  exceptionPtr : Option E
  waiting : Bool
  waitingException : Option E
  workStarted : Bool
  /-- From here on, what has happened in this round: the tasks of the calls, how often the
  prefetch was started, the exceptions that prefetched items have reported, how the executions of
  `implDoWork` have ended, and what the waiting tasks were released with. -/
  calls : List Nat
  prefetches : Nat
  failures : List E
  ran : List (Option E)
  released : List (Nat × Option E)
  /-- The exceptions that prefetched items have reported in earlier rounds. -/
  earlier : List E

inductive Frame (E : Type) where
  | doWorkAsync (t : Nat)
  | node (t : Nat)
  | startWork
  | prefetch (items : Nat)
  | item (i : Nat)
  | doneWaitingTask (e : Option E)
  | decrement
  | execute
  | queued (e : Option E)
  | runModule (e : Option E)
  | implDoWork
  | doneWaiting (e : Option E)

def Shared.hold (sh : Shared E) : Shared E :=
  {sh with refCount := sh.refCount + 1}

/-- The compare-exchange that succeeds, and the holder of the run task. -/
def Shared.start (framework : Framework) (sh : Shared E) : Shared E where
  __ := sh
  refCount := sh.refCount + 1
  exceptionPtr := match framework with
    | .tbb => sh.exceptionPtr
    | .openMP => none
  workStarted := true
  prefetches := sh.prefetches + 1

def Shared.dependentTaskFailed (sh : Shared E) (e : Option E) : Shared E where
  __ := sh
  exceptionPtr := sh.exceptionPtr.or e
  failures := sh.failures ++ e.toList

def Shared.release (sh : Shared E) (t : Nat) : Shared E :=
  {sh with released := sh.released ++ [(t,sh.waitingException)]}

def Shared.reset (sh : Shared E) : Shared E where
  refCount := sh.refCount
  exceptionPtr := sh.exceptionPtr
  waiting := true
  waitingException := none
  workStarted := false
  calls := []
  prefetches := 0
  failures := []
  ran := []
  released := []
  earlier := sh.earlier ++ sh.failures

def Shared.call (sh : Shared E) (t : Nat) : Shared E :=
  {sh with calls := sh.calls ++ [t]}

/-- A wrapper of either framework, with or without a `SerialTaskQueue`, whose module has
registered so many getters. -/
structure Kind where
  framework : Framework
  hasQueue : Bool
  items : Nat

def react (kind : Kind) (sh : Shared E) :
    Frame E → Option E → Option (Reaction (Shared E) (Frame E))
  | .doWorkAsync t, _ =>
    if sh.waiting then some ⟨sh,[.startWork],[.node t]⟩ else some ⟨sh.release t,[.startWork],[]⟩
  | .node t, _ => if sh.waiting then none else some ⟨sh.release t,[],[]⟩
  | .startWork, _ =>
    if sh.workStarted then some ⟨sh,[],[]⟩
    else some ⟨sh.start kind.framework,[.prefetch kind.items],[]⟩
  | .prefetch 0, _ => some ⟨sh,[.decrement],[]⟩
  | .prefetch (i + 1), _ => some ⟨sh.hold,[.prefetch i],[.item i]⟩
  | .item _, outcome => some ⟨sh,[.doneWaitingTask outcome],[]⟩
  | .doneWaitingTask e, _ => some ⟨sh.dependentTaskFailed e,[.decrement],[]⟩
  | .decrement, _ =>
    some ⟨{sh with refCount := sh.refCount - 1},[],if sh.refCount = 1 then [.execute] else []⟩
  | .execute, _ =>
    if kind.hasQueue then some ⟨sh,[],[.queued sh.exceptionPtr]⟩
    else some ⟨sh,[.runModule sh.exceptionPtr],[]⟩
  | .queued e, _ => some ⟨sh,[.runModule e],[]⟩
  | .runModule (some e), _ => some ⟨sh,[.doneWaiting (some e)],[]⟩
  | .runModule none, _ => some ⟨sh,[.implDoWork],[]⟩
  | .implDoWork, thrown => some ⟨{sh with ran := sh.ran ++ [thrown]},[.doneWaiting thrown],[]⟩
  | .doneWaiting e, _ => some ⟨{sh with waiting := false, waitingException := e},[],[]⟩

inductive Action (E : Type) where
  | act (thread : Nat) (choice : Option E)
  | call (t : Nat)
  | reset

abbrev State (E : Type) := Pool (Shared E) (Frame E)

/-- The wrapper is reset when no call is in progress and no task of the round is left. -/
def next (kind : Kind) (s : State E) : Action E → Option (State E)
  | .act thread choice => s.step (react kind) thread choice
  | .call t => some ⟨s.shared.call t,s.threads ++ [[.doWorkAsync t]]⟩
  | .reset => if s.threads.flatten.isEmpty then some ⟨s.shared.reset,[]⟩ else none

def initial (E : Type) : State E where
  threads := []
  shared :=
    { refCount := 0
      exceptionPtr := none
      waiting := true
      waitingException := none
      workStarted := false
      calls := []
      prefetches := 0
      failures := []
      ran := []
      released := []
      earlier := [] }

def Quiescent (s : State E) : Prop :=
  ∀ f ∈ s.bag, ∃ t, f = .node t ∧ s.shared.waiting = true

end ToyMtFramework.ModuleWrapper
