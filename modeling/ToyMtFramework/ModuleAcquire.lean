import ToyMtFramework.Schedule

/-! A module with `hasAcquire()` in one event of the TBB framework: `ModuleWrapper` from
`doWorkAsync` over `implDoAcquire`, the copies of its `WaitingTaskWithArenaHolder` and the
continuation to the release of the waiting tasks. What the module does with a holder, and how its
prefetches end, is the choice of the thread. -/
namespace ToyMtFramework.ModuleAcquire
open Activities Transition
open Schedule (ThreadType)

variable {E : Type}

inductive Choice (E : Type) where
  | copy
  | move
  | presetTaskAsFailed (e : E)
  | doneWaiting (e : Option E)
  | finish (thrown : Option E)

structure Shared (E : Type) where
  refCount : Nat
  exceptionPtr : Option E
  waiting : Bool
  waitingException : Option E
  workStarted : Bool
  /-- From here on, what has happened so far: how the prefetches, `implDoAcquire` and `implDoWork`
  ended, what the holders have reported and what the waiting tasks were released with. -/
  prefetched : Option E
  thrown : Option E
  reported : List E
  worked : Nat
  workThrown : Option E
  released : List (Nat × Option E)

/-- `holder` is a copy that some thread has; `implDoAcquire` may still have its own. -/
inductive Frame (E : Type) where
  | doWorkAsync (t : Nat)
  | node (t : Nat)
  | startWork
  | prefetch
  | execute (e : Option E)
  | queuedAcquire (e : Option E)
  | runModuleAcquireAfterAsyncPrefetch (e : Option E)
  | implDoAcquire (own : Bool)
  | holder
  | doneWaitingTask (e : Option E)
  | decrement
  | continuation
  | queuedWork (e : Option E)
  | runModuleAfterAsyncPrefetch (e : Option E)
  | doneWaiting (e : Option E)

def Shared.hold (sh : Shared E) : Shared E :=
  {sh with refCount := sh.refCount + 1}

def Shared.dependentTaskFailed (sh : Shared E) (e : Option E) : Shared E where
  __ := sh
  exceptionPtr := sh.exceptionPtr.or e
  reported := e.toList ++ sh.reported

def Shared.release (sh : Shared E) (t : Nat) : Shared E :=
  {sh with released := sh.released ++ [(t,sh.waitingException)]}

def hasQueue (threadType : ThreadType) : Bool :=
  threadType ≠ .threadSafeBetweenInstances

def react (threadType : ThreadType) (sh : Shared E) :
    Frame E → Choice E → Option (Reaction (Shared E) (Frame E))
  | .doWorkAsync t, _ =>
    if sh.waiting then some ⟨sh,[.startWork],[.node t]⟩ else some ⟨sh.release t,[.startWork],[]⟩
  | .node t, _ => if sh.waiting then none else some ⟨sh.release t,[],[]⟩
  | .startWork, _ =>
    if sh.workStarted then some ⟨sh,[],[]⟩ else some ⟨{sh with workStarted := true},[.prefetch],[]⟩
  | .prefetch, .finish e => some ⟨{sh with prefetched := e},[],[.execute e]⟩
  | .execute e, _ =>
    if hasQueue threadType then some ⟨sh,[],[.queuedAcquire e]⟩
    else some ⟨sh,[.runModuleAcquireAfterAsyncPrefetch e],[]⟩
  | .queuedAcquire e, _ => some ⟨sh,[.runModuleAcquireAfterAsyncPrefetch e],[]⟩
  | .runModuleAcquireAfterAsyncPrefetch (some e), _ => some ⟨sh,[.doneWaiting (some e)],[]⟩
  | .runModuleAcquireAfterAsyncPrefetch none, _ => some ⟨sh.hold,[.implDoAcquire true],[]⟩
  | .implDoAcquire true, .copy => some ⟨sh.hold,[.implDoAcquire true],[.holder]⟩
  | .implDoAcquire true, .move => some ⟨sh,[.implDoAcquire false],[.holder]⟩
  | .implDoAcquire true, .presetTaskAsFailed e =>
    some ⟨sh.dependentTaskFailed (some e),[.implDoAcquire true],[]⟩
  | .implDoAcquire true, .doneWaiting e => some ⟨sh,[.doneWaitingTask e,.implDoAcquire false],[]⟩
  -- Returning or throwing destroys the holder that is left. What is caught stays in `iPtr`.
  | .implDoAcquire true, .finish e => some ⟨{sh with thrown := e},[.doneWaitingTask none],[]⟩
  | .implDoAcquire false, .finish e => some ⟨{sh with thrown := e},[],[]⟩
  | .holder, .copy => some ⟨sh.hold,[.holder],[.holder]⟩
  | .holder, .presetTaskAsFailed e => some ⟨sh.dependentTaskFailed (some e),[.holder],[]⟩
  | .holder, .doneWaiting e => some ⟨sh,[.doneWaitingTask e],[]⟩
  | .doneWaitingTask e, _ => some ⟨sh.dependentTaskFailed e,[.decrement],[]⟩
  | .decrement, _ =>
    some ⟨{sh with refCount := sh.refCount - 1},[],if sh.refCount = 1 then [.continuation] else []⟩
  | .continuation, _ =>
    if hasQueue threadType then some ⟨sh,[],[.queuedWork sh.exceptionPtr]⟩
    else some ⟨sh,[.runModuleAfterAsyncPrefetch sh.exceptionPtr],[]⟩
  | .queuedWork e, _ => some ⟨sh,[.runModuleAfterAsyncPrefetch e],[]⟩
  | .runModuleAfterAsyncPrefetch (some e), _ => some ⟨sh,[.doneWaiting (some e)],[]⟩
  | .runModuleAfterAsyncPrefetch none, .finish e =>
    some ⟨{sh with worked := sh.worked + 1, workThrown := e},[.doneWaiting e],[]⟩
  | .doneWaiting e, _ => some ⟨{sh with waiting := false, waitingException := e},[],[]⟩
  | _, _ => none

abbrev State (E : Type) := Pool (Shared E) (Frame E)

def next (threadType : ThreadType) (s : State E) (a : Nat × Choice E) : Option (State E) :=
  s.step (react threadType) a.1 a.2

def initial (E : Type) (tasks : List Nat) : State E where
  threads := tasks.map fun t => [.doWorkAsync t]
  shared :=
    { refCount := 0
      exceptionPtr := none
      waiting := true
      waitingException := none
      workStarted := false
      prefetched := none
      thrown := none
      reported := []
      worked := 0
      workThrown := none
      released := [] }

def Quiescent (s : State E) : Prop :=
  ∀ f ∈ s.bag, ∃ t, f = .node t ∧ s.shared.waiting = true

end ToyMtFramework.ModuleAcquire
