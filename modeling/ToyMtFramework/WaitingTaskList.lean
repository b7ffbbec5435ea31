import ToyMtFramework.Core.Transition
import Mathlib.Algebra.Group.Nat.Defs
import Mathlib.Logic.Function.Basic

/-! One round of a `WaitingTaskList`, at the grain of its atomic operations.
`none` is the call of `doneWaiting`, `some c` the call `c` of `add`; a reference to
a waiting task is named by the call that handed it over. The TBB and OpenMP lists
make the same accesses in the same order. -/
namespace ToyMtFramework.WaitingTaskList
open Transition

/-- A node of the array `m_nodeCache` or one made by `new`. -/
inductive NodeId where
  | cached (index : Nat)
  | heap (serial : Nat)
  deriving DecidableEq, Repr

def NodeId.fromCache : NodeId → Bool
  | .cached _ => true
  | .heap _ => false

structure WaitNode (ι : Type) where
  task : Option ι
  nextNode : Option NodeId
  deriving DecidableEq

/-- Where a call stands. The constructors from `take` on are the loop of
`announce`, which `add` and `doneWaiting` share. -/
inductive Pc (ι : Type) where
  | ready
  | late
  | lateRelease
  | create
  | initialise (n : NodeId)
  | push (n : NodeId)
  | link (n : NodeId) (old : Option NodeId)
  | recheck
  | clearWaiting
  | take
  | follow (n : NodeId)
  | fail (n : NodeId) (next : Option NodeId)
  | release (n : NodeId) (next : Option NodeId) (task : Option ι)
  | delete (n : NodeId) (next : Option NodeId)
  | returned
  deriving DecidableEq

/-- What happens to the references, in order: `dependentTaskFailed` and the
decrement that releases the task. -/
inductive Event (ι ε : Type) where
  | failed (task : Option ι) (exception : ε)
  | released (task : Option ι)
  deriving DecidableEq

structure State (ι ε : Type) where
  waiting : Bool
  exceptionPtr : Option ε
  head : Option NodeId
  node : NodeId → WaitNode ι
  nodeCacheSize : Nat
  lastAssignedCacheIndex : Nat
  heapNodes : Nat
  call : Option ι → Pc ι
  /-- Results of `createNode`, nodes that `announce` has worked on, nodes it has
  deleted, and the references it or `add` has dealt with. -/
  handed : List (ι × NodeId)
  taken : List NodeId
  deleted : List NodeId
  log : List (Event ι ε)

/-- `m_lastAssignedCacheIndex` is an `unsigned int`. -/
def maxIndex : Nat := 2 ^ 32 - 1

def bump (index : Nat) : Nat := if index = maxIndex then 0 else index + 1

def initial (ι ε : Type) (nodeCacheSize : Nat) : State ι ε where
  waiting := true
  exceptionPtr := none
  head := none
  node := fun _ => ⟨none,none⟩
  nodeCacheSize := nodeCacheSize
  lastAssignedCacheIndex := 0
  heapNodes := 0
  call := fun _ => .ready
  handed := []
  taken := []
  deleted := []
  log := []

section Machine
variable {ι ε : Type} [DecidableEq ι]

def State.goto (s : State ι ε) (k : Option ι) (pc : Pc ι) : State ι ε :=
  {s with call := Function.update s.call k pc}

def State.setNode (s : State ι ε) (n : NodeId) (value : WaitNode ι) : State ι ε :=
  {s with node := Function.update s.node n value}

def State.applyFailure (s : State ι ε) (task : Option ι) : State ι ε :=
  {s with log := s.log ++ s.exceptionPtr.toList.map (.failed task)}

def State.released (s : State ι ε) (task : Option ι) : State ι ε :=
  {s with log := s.log ++ [.released task]}

def State.place (s : State ι ε) : NodeId :=
  if s.lastAssignedCacheIndex < s.nodeCacheSize then .cached s.lastAssignedCacheIndex
  else .heap s.heapNodes

def createNode (s : State ι ε) (c : ι) : State ι ε :=
  {s with
    lastAssignedCacheIndex := bump s.lastAssignedCacheIndex
    heapNodes := if s.lastAssignedCacheIndex < s.nodeCacheSize then s.heapNodes else s.heapNodes + 1
    handed := s.handed ++ [(c,s.place)]}.goto (some c) (.initialise s.place)

/-- The loop of `announce` after a node is done. -/
def continueAt : Option NodeId → Pc ι
  | none => .returned
  | some n => .follow n

def announce (s : State ι ε) (k : Option ι) : Pc ι → Option (State ι ε)
  | .take => some ({s with head := none}.goto k (continueAt s.head))
  | .follow n =>
    let next := (s.node n).nextNode
    some (if next = some n then s else s.goto k (.fail n next))
  | .fail n next =>
    let task := (s.node n).task
    some (({s with taken := s.taken ++ [n]}.applyFailure task).goto k (.release n next task))
  | .release n next task => some ((s.released task).goto k (.delete n next))
  | .delete n next =>
    some ({s with deleted := if n.fromCache then s.deleted else s.deleted ++ [n]}.goto k
      (continueAt next))
  | _ => none

def add (s : State ι ε) (c : ι) : Pc ι → Option (State ι ε)
  | .ready => some (s.goto (some c) (if s.waiting then .create else .late))
  | .late => some ((s.applyFailure (some c)).goto (some c) .lateRelease)
  | .lateRelease => some ((s.released (some c)).goto (some c) .returned)
  | .create => some (createNode s c)
  | .initialise n => some ((s.setNode n ⟨some c,some n⟩).goto (some c) (.push n))
  | .push n => some ({s with head := some n}.goto (some c) (.link n s.head))
  | .link n old =>
    some ((s.setNode n {s.node n with nextNode := old}).goto (some c)
      (if old = none then .recheck else .returned))
  | .recheck => some (s.goto (some c) (if s.waiting then .returned else .take))
  | pc => announce s (some c) pc

def doneWaiting (s : State ι ε) (e : Option ε) : Pc ι → Option (State ι ε)
  | .ready => some ({s with exceptionPtr := e}.goto none .clearWaiting)
  | .clearWaiting => some ({s with waiting := false}.goto none .take)
  | pc => announce s none pc

def next (e : Option ε) (s : State ι ε) : Option ι → Option (State ι ε)
  | none => doneWaiting s e (s.call none)
  | some c => add s c (s.call (some c))

end Machine
end ToyMtFramework.WaitingTaskList
