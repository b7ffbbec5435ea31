import ToyMtFramework.Core.Transition
import Mathlib.Algebra.GroupWithZero.Nat
import Mathlib.Logic.Function.Basic

/-! The claim, pop, release and re-check protocol of `SerialTaskQueue`.
Every operation on `m_taskChosen`, `m_pauseCount` and the concurrent queue is one
step of one thread. The TBB and OpenMP queues share `pickNextTask`; they differ
only in what the runner of a finished task does with the next one. -/
namespace ToyMtFramework.SerialTaskQueue
open Transition

inductive Framework where
  | tbb
  | openMP
  deriving DecidableEq, Repr

structure QueuedTask (γ : Type) where
  name : Nat
  group : γ
  deriving DecidableEq, Repr

inductive Pick where
  | loadPauseCount
  | claim
  | tryPop
  | release
  | testEmpty
  | reclaim
  | retryPop
  | rerelease
  deriving DecidableEq, Repr

/-- Who receives the result: `pushTask` and `resume` spawn it, the loop that ran
a task of `group` may go on with it. -/
inductive Caller (γ : Type) where
  | spawner
  | runner (group : γ)
  deriving DecidableEq, Repr

inductive Call (γ : Type) where
  | outside
  | picking (pc : Pick) (caller : Caller γ)
  | spawning (task : QueuedTask γ)
  deriving DecidableEq, Repr

/-- A thread runs at most one task of the queue and is inside at most one queue
operation, which the body of the running task may have called. -/
structure Thread (γ : Type) where
  running : Option (QueuedTask γ)
  call : Call γ
  deriving DecidableEq, Repr

structure State (ι γ : Type) where
  tasks : List (QueuedTask γ)
  taskChosen : Bool
  pauseCount : Nat
  /-- Calls of `pause` that no call of `resume` has matched yet. -/
  unmatched : Nat
  /-- Chosen tasks handed to their group and not started. -/
  spawned : List (QueuedTask γ)
  thread : ι → Thread γ

inductive Action (ι γ : Type) where
  | push (i : ι) (task : QueuedTask γ)
  | pause (i : ι)
  | resume (i : ι)
  | start (i : ι)
  | finishedTask (i : ι)
  | advance (i : ι)

/-- `m_pauseCount` is an `unsigned long`: it wraps at both ends. -/
def maxPauseCount : Nat := 2 ^ 64 - 1

def increment (n : Nat) : Nat := if n = maxPauseCount then 0 else n + 1

def decrement (n : Nat) : Nat := if n = 0 then maxPauseCount else n - 1

def initial (ι γ : Type) : State ι γ where
  tasks := []
  taskChosen := false
  pauseCount := 0
  unmatched := 0
  spawned := []
  thread := fun _ => ⟨none,.outside⟩

section Machine
variable {ι γ : Type} [DecidableEq ι] [DecidableEq γ]

def State.setThread (s : State ι γ) (i : ι) (th : Thread γ) : State ι γ :=
  {s with thread := Function.update s.thread i th}

def State.setCall (s : State ι γ) (i : ι) (call : Call γ) : State ι γ :=
  s.setThread i {s.thread i with call}

/-- A popped task goes to the caller. Only the TBB loop keeps a task of its own
group; in every other case the task is handed to its group. -/
def receive (framework : Framework) (running : Option (QueuedTask γ)) (task : QueuedTask γ) :
    Caller γ → Thread γ
  | .spawner => ⟨running,.spawning task⟩
  | .runner group =>
    if framework = .tbb ∧ task.group = group then ⟨some task,.outside⟩
    else ⟨running,.spawning task⟩

/-- The next operation of `pickNextTask`, or the spawn that follows it. -/
def advance (framework : Framework) (s : State ι γ) (i : ι) : Option (State ι γ) :=
  let th := s.thread i
  match th.call with
  | .outside => none
  | .spawning task => some {s.setCall i .outside with spawned := s.spawned ++ [task]}
  | .picking .loadPauseCount caller =>
    some (s.setCall i (if s.pauseCount = 0 then .picking .claim caller else .outside))
  | .picking .claim caller =>
    some (if s.taskChosen then s.setCall i .outside
      else {s.setCall i (.picking .tryPop caller) with taskChosen := true})
  | .picking .tryPop caller =>
    some (match s.tasks with
      | [] => s.setCall i (.picking .release caller)
      | task :: rest => {s.setThread i (receive framework th.running task caller) with tasks := rest})
  | .picking .release caller =>
    some {s.setCall i (.picking .testEmpty caller) with taskChosen := false}
  | .picking .testEmpty caller =>
    some (s.setCall i (if s.tasks = [] then .outside else .picking .reclaim caller))
  | .picking .reclaim caller =>
    some (if s.taskChosen then s.setCall i .outside
      else {s.setCall i (.picking .retryPop caller) with taskChosen := true})
  | .picking .retryPop caller =>
    some (match s.tasks with
      | [] => s.setCall i (.picking .rerelease caller)
      | task :: rest => {s.setThread i (receive framework th.running task caller) with tasks := rest})
  | .picking .rerelease _ => some {s.setCall i .outside with taskChosen := false}

/-- Calls start outside any other queue operation. `resume` is only called to
match an earlier `pause`; `finishedTask` is reached when the body has returned or
thrown and starts with the store to `m_taskChosen`. -/
def next (framework : Framework) (s : State ι γ) : Action ι γ → Option (State ι γ)
  | .push i task =>
    if (s.thread i).call = .outside then
      some {s.setCall i (.picking .loadPauseCount .spawner) with tasks := s.tasks ++ [task]}
    else none
  | .pause i =>
    if (s.thread i).call = .outside then
      some {s with pauseCount := increment s.pauseCount, unmatched := s.unmatched + 1}
    else none
  | .resume i =>
    if (s.thread i).call = .outside ∧ 0 < s.unmatched then
      let s := {s with pauseCount := decrement s.pauseCount, unmatched := s.unmatched - 1}
      some (if s.pauseCount = 0 then s.setCall i (.picking .loadPauseCount .spawner) else s)
    else none
  | .start i =>
    match s.spawned, s.thread i with
    | task :: rest, ⟨none,.outside⟩ => some {s.setThread i ⟨some task,.outside⟩ with spawned := rest}
    | _, _ => none
  | .finishedTask i =>
    match s.thread i with
    | ⟨some task,.outside⟩ =>
      some {s.setThread i ⟨none,.picking .loadPauseCount (.runner task.group)⟩ with
        taskChosen := false}
    | _ => none
  | .advance i => advance framework s i

end Machine

/-- Two threads are enough for the runs that are spelled out. -/
scoped instance twoThreads : NeZero 2 := ⟨Nat.succ_ne_zero 1⟩

end ToyMtFramework.SerialTaskQueue
