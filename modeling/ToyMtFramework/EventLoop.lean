import ToyMtFramework.Core.Activities
import ToyMtFramework.SerialTaskQueue

/-! The event loop of `EventProcessor::processAll` with any number of streams. Each stream asks the
source for an event, runs its paths and comes back when all of them are done. A filter that has been
given the next task of a path may release it at any time. Modules do not throw. TBB keeps the tasks
of a path and of a schedule as members, OpenMP makes them anew. -/
namespace ToyMtFramework.EventLoop
open Activities Transition
open SerialTaskQueue (Framework)

/-- The number of filters on each path is the same for all streams. -/
structure Config where
  framework : Framework
  numConcurrentEvents : Nat
  nEvents : Nat
  paths : List Nat

inductive Task where
  | nextFilter (i p : Nat)
  | allPathsDone (i : Nat)
  deriving DecidableEq

inductive Entry where
  | eventReset
  | accepted (n : Nat)
  | refused
  | processAsync (n : Nat)
  | scheduleReset
  | callback
  deriving DecidableEq

structure Shared where
  seenEvents : Nat
  index : Nat → Nat
  refCount : Task → Nat
  callback : Nat → Bool
  waiting : Nat → Nat → Bool
  filterIndex : Nat → Nat → Nat
  /-- What the streams have done so far. -/
  log : List (Nat × Entry)

/-- What a thread is about to do for stream `i`; `node` is a task in the list of a path and
`filterAsync` one that a filter has been given. -/
inductive Frame where
  | processAll (streams : List Nat)
  | handleNextEventAsync (i : Nat)
  | setEventInfo (i : Nat)
  | processAsync (i : Nat)
  | scheduleReset (i : Nat)
  | runPaths (i : Nat)
  | launch (i : Nat) (paths : List Nat)
  | runAsync (i p : Nat)
  | runFilterAsync (i p k : Nat)
  | filterAsync (i p : Nat)
  | filterFinished (i p k : Nat)
  | doneWaiting (i p : Nat)
  | node (i p : Nat)
  | decrement (t : Task)
  | execute (t : Task)
  | callback (i : Nat)

def Config.filters (c : Config) (p : Nat) : Nat :=
  c.paths.getD p 0

/-- `size_t` is 64 bits wide. -/
def sizeBound : Nat := 2 ^ 64

def Shared.record (sh : Shared) (i : Nat) (e : Entry) : Shared :=
  {sh with log := sh.log ++ [(i,e)]}

def Shared.setEventInfo (sh : Shared) (i : Nat) : Shared where
  __ := sh
  seenEvents := (sh.seenEvents + 1) % sizeBound
  index := Function.update sh.index i sh.seenEvents

/-- The first holder of a task; a new task takes the place of the one made before. -/
def Shared.make (sh : Shared) (framework : Framework) (t : Task) : Shared where
  __ := sh
  refCount := Function.update sh.refCount t (match framework with
    | .tbb => sh.refCount t + 1
    | .openMP => 1)

def Shared.hold (sh : Shared) (t : Task) : Shared where
  __ := sh
  refCount := Function.update sh.refCount t (sh.refCount t + 1)

def Shared.drop (sh : Shared) (t : Task) : Shared where
  __ := sh
  refCount := Function.update sh.refCount t (sh.refCount t - 1)

def Shared.setCallback (sh : Shared) (i : Nat) (held : Bool) : Shared where
  __ := sh
  callback := Function.update sh.callback i held

def Shared.setWaiting (sh : Shared) (i p : Nat) (waiting : Bool) : Shared where
  __ := sh
  waiting := Function.update sh.waiting i (Function.update (sh.waiting i) p waiting)

def Shared.setIndex (sh : Shared) (i p k : Nat) : Shared where
  __ := sh
  filterIndex := Function.update sh.filterIndex i (Function.update (sh.filterIndex i) p k)

def react (c : Config) (sh : Shared) : Frame → Bool → Option (Reaction Shared Frame)
  | .processAll [], _ => some ⟨sh,[],[]⟩
  | .processAll (i :: is), _ => some ⟨sh,[.handleNextEventAsync i,.processAll is],[]⟩
  | .handleNextEventAsync i, _ => some ⟨sh.record i .eventReset,[.setEventInfo i],[]⟩
  | .setEventInfo i, _ =>
    if c.nEvents ≥ (sh.seenEvents + 1) % sizeBound then
      some ⟨(sh.setEventInfo i).record i (.accepted sh.seenEvents),[.processAsync i],[]⟩
    else some ⟨(sh.setEventInfo i).record i .refused,[],[]⟩
  | .processAsync i, _ => some ⟨sh.record i (.processAsync (sh.index i)),[.scheduleReset i],[]⟩
  | .scheduleReset i, _ => some ⟨sh.record i .scheduleReset,[.runPaths i],[]⟩
  | .runPaths i, _ =>
    if c.paths = [] then some ⟨sh,[.callback i],[]⟩
    else
      some ⟨(sh.setCallback i true).make c.framework (.allPathsDone i),
        [.launch i (List.range c.paths.length)],[]⟩
  | .launch i [], _ => some ⟨sh,[.decrement (.allPathsDone i)],[]⟩
  | .launch i (p :: ps), _ => some ⟨sh.hold (.allPathsDone i),[.runAsync i p,.launch i ps],[]⟩
  | .runAsync i p, _ =>
    some ⟨sh.setWaiting i p true,[if c.filters p = 0 then .doneWaiting i p else .runFilterAsync i p 0],
      [.node i p]⟩
  | .runFilterAsync i p k, _ =>
    some ⟨(sh.setIndex i p k).make c.framework (.nextFilter i p),[],[.filterAsync i p]⟩
  | .filterAsync i p, _ => some ⟨sh,[.decrement (.nextFilter i p)],[]⟩
  | .filterFinished i p k, keep =>
    if keep && k + 1 < c.filters p then some ⟨sh,[.runFilterAsync i p (k + 1)],[]⟩
    else some ⟨sh,[.doneWaiting i p],[]⟩
  | .doneWaiting i p, _ => some ⟨sh.setWaiting i p false,[],[]⟩
  | .node i p, _ => if sh.waiting i p then none else some ⟨sh,[.decrement (.allPathsDone i)],[]⟩
  | .decrement t, _ => some ⟨sh.drop t,[],if sh.refCount t = 1 then [.execute t] else []⟩
  | .execute (.nextFilter i p), _ => some ⟨sh,[.filterFinished i p (sh.filterIndex i p)],[]⟩
  | .execute (.allPathsDone i), _ =>
    if sh.callback i then some ⟨sh.setCallback i false,[.callback i],[]⟩ else none
  -- The callback holds the task that handles the next event.
  | .callback i, _ => some ⟨sh.record i .callback,[],[.handleNextEventAsync i]⟩

abbrev State := Pool Shared Frame

def next (c : Config) (s : State) (a : Nat × Bool) : Option State :=
  s.step (react c) a.1 a.2

/-- The streams `1, …, N - 1` are launched first and stream 0 last. -/
def initial (c : Config) : State where
  threads := [[.processAll (List.range' 1 (c.numConcurrentEvents - 1) ++ [0])]]
  shared :=
    { seenEvents := 0
      index := fun _ => 0
      refCount := fun _ => 0
      callback := fun _ => false
      waiting := fun _ _ => true
      filterIndex := fun _ _ => 0
      log := [] }

end ToyMtFramework.EventLoop
