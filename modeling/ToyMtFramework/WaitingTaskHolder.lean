import ToyMtFramework.Core.Activities
import Mathlib.Logic.Function.Basic

/-! `WaitingTaskHolder`, `WaitingTaskWithArenaHolder` and the nodes of `WaitingTaskList`s as the
owners of TBB waiting tasks, which are named by numbers. What a holder does to its own members
belongs to the step of the shared access next to it. The links between the nodes of a list are
left to the model of the list: here a node is in its list until an `announce` takes it. -/
namespace ToyMtFramework.WaitingTaskHolder
open Activities

inductive Kind where
  | plain
  | withArena
  deriving DecidableEq, Repr

structure Holder where
  kind : Kind
  task : Option Nat
  /-- Member functions that are using the object. -/
  calls : Nat
  deriving DecidableEq, Repr

/-- Who lets go of a task: the holder `k` in `doneWaiting`, a holder that only this call knows, or
the node of a list. -/
inductive Owner where
  | object (k : Nat) (kind : Kind)
  | temporary (kind : Kind)
  | node
  deriving DecidableEq, Repr

inductive Reporter where
  | preset (k : Nat)
  | releasing (owner : Owner)
  deriving DecidableEq, Repr

inductive Frame (E : Type) where
  /-- `dependentTaskFailed` before its test of `m_ptr` and before its compare and exchange. -/
  | dependentTaskFailed (reporter : Reporter) (t : Nat) (e : E)
  | exchange (reporter : Reporter) (t : Nat) (e : E)
  | returning (k : Nat)
  | release (owner : Owner) (t : Nat)
  | add (l t : Nat)
  | node (l t : Nat)
  | announced (l t : Nat)
  | enqueued (t : Nat)
  | execute (t : Nat)
  deriving DecidableEq, Repr

structure WaitingList (E : Type) where
  waiting : Bool
  exceptionPtr : Option E

structure Shared (E : Type) where
  holders : List Holder
  refCount : Nat → Nat
  exceptionPtr : Nat → Option E
  list : Nat → WaitingList E
  /-- Tasks that have had a holder, exceptions reported for a task, tasks handed to their group or
  arena, and tasks executed with the `exceptionPtr()` they found. -/
  created : List Nat
  reported : List (Nat × E)
  submitted : List Nat
  executed : List (Nat × Option E)

/-- `refCount_` is an `unsigned int`. -/
def refCountLimit : Nat := 2 ^ 32

def incrementRefCount (count : Nat) : Nat := (count + 1) % refCountLimit

def decrementRefCount (count : Nat) : Nat := (count + (refCountLimit - 1)) % refCountLimit

section Machine
variable {E : Type}

def Shared.increment (sh : Shared E) (t : Nat) : Shared E :=
  {sh with refCount := Function.update sh.refCount t (incrementRefCount (sh.refCount t))}

def Shared.decrement (sh : Shared E) (t : Nat) : Shared E :=
  {sh with refCount := Function.update sh.refCount t (decrementRefCount (sh.refCount t))}

def Shared.setHolder (sh : Shared E) (k : Nat) (h : Holder) : Shared E :=
  {sh with holders := sh.holders.set k h}

def Shared.addHolder (sh : Shared E) (h : Holder) : Shared E :=
  {sh with holders := sh.holders ++ [h]}

def Shared.finish (sh : Shared E) (k : Nat) : Shared E :=
  match sh.holders[k]? with
  | some h => sh.setHolder k {h with calls := h.calls - 1}
  | none => sh

def Owner.finish (sh : Shared E) : Owner → Shared E
  | .object k _ => sh.finish k
  | .temporary _ | .node => sh

/-- How the last owner submits the task: an arena runs the task in its group. -/
def Owner.submission (t : Nat) : Owner → Frame E
  | .object _ .withArena | .temporary .withArena => .enqueued t
  | .object _ .plain | .temporary .plain | .node => .execute t

def Reporter.proceed (t : Nat) : Reporter → Frame E
  | .preset k => .returning k
  | .releasing owner => .release owner t

/-- `doneWaiting(e)` of a holder, or the body of the loop in `announce`. -/
def doneWaiting (owner : Owner) (t : Nat) : Option E → Frame E
  | some e => .dependentTaskFailed (.releasing owner) t e
  | none => .release owner t

def react (sh : Shared E) (f : Frame E) (_ : Unit) : Option (Reaction (Shared E) (Frame E)) :=
  match f with
  | .dependentTaskFailed r t e =>
    some ⟨{sh with reported := sh.reported ++ [(t,e)]},
      [if sh.exceptionPtr t = none then .exchange r t e else r.proceed t],[]⟩
  | .exchange r t e =>
    some ⟨{sh with exceptionPtr := Function.update sh.exceptionPtr t ((sh.exceptionPtr t).or (some e))},
      [r.proceed t],[]⟩
  | .returning k => some ⟨sh.finish k,[],[]⟩
  | .release owner t =>
    let after := (owner.finish sh).decrement t
    some (if after.refCount t = 0 then
      ⟨{after with submitted := after.submitted ++ [t]},[],[owner.submission t]⟩ else ⟨after,[],[]⟩)
  | .add l t =>
    some (if (sh.list l).waiting then ⟨sh,[],[.node l t]⟩
      else ⟨sh,[doneWaiting (.temporary .plain) t (sh.list l).exceptionPtr],[]⟩)
  | .node l t => if (sh.list l).waiting then none else some ⟨sh,[.announced l t],[]⟩
  | .announced l t => some ⟨sh,[doneWaiting .node t (sh.list l).exceptionPtr],[]⟩
  | .enqueued t => some ⟨sh,[],[.execute t]⟩
  | .execute t => some ⟨{sh with executed := sh.executed ++ [(t,sh.exceptionPtr t)]},[],[]⟩

/-- What any thread may do with the holders and lists it can reach. A holder that a member function
is using is not written to, and an empty one is neither copied nor told that it is done. -/
inductive Call (E : Type) where
  | create (kind : Kind) (t : Nat)
  | createEmpty (kind : Kind)
  | copy (k : Nat)
  | move (k : Nat)
  | copyAssign (destination source : Nat)
  | moveAssign (destination source : Nat)
  | presetTaskAsFailed (k : Nat) (e : Option E)
  | doneWaiting (k : Nat) (e : Option E)
  | destroy (k : Nat)
  | addCopy (l k : Nat)
  | addMove (l k : Nat)
  | listDoneWaiting (l : Nat) (e : Option E)
  | listReset (l : Nat)

def destroyed (kind : Kind) (task : Option Nat) : List (Frame E) :=
  (task.map (Frame.release (.temporary kind))).toList

def Shared.idle (sh : Shared E) (k : Nat) : Option Holder :=
  sh.holders[k]?.filter fun h => h.calls = 0

def call (sh : Shared E) : Call E → Option (Shared E × List (Frame E))
  | .create kind t =>
    if t ∈ sh.created then none
    else some ({sh with created := sh.created ++ [t]}.increment t |>.addHolder ⟨kind,some t,0⟩,[])
  | .createEmpty kind => some (sh.addHolder ⟨kind,none,0⟩,[])
  | .copy k => do
    let h ← sh.holders[k]?
    let t ← h.task
    return ((sh.increment t).addHolder ⟨h.kind,some t,0⟩,[])
  | .move k => do
    let h ← sh.idle k
    return ((sh.setHolder k {h with task := none}).addHolder ⟨h.kind,h.task,0⟩,[])
  | .copyAssign destination source => do
    let other ← sh.holders[source]?
    let t ← other.task
    let old ← sh.idle destination
    if old.kind = other.kind then
      return ((sh.increment t).setHolder destination {old with task := some t},destroyed old.kind old.task)
    else none
  | .moveAssign destination source => do
    let other ← sh.idle source
    let moved := sh.setHolder source {other with task := none}
    let old ← moved.idle destination
    if old.kind = other.kind then
      return (moved.setHolder destination {old with task := other.task},destroyed old.kind old.task)
    else none
  | .presetTaskAsFailed k e => do
    let h ← sh.holders[k]?
    match e with
    | none => return (sh,[])
    | some e =>
      let t ← h.task
      return (sh.setHolder k {h with calls := h.calls + 1},[.dependentTaskFailed (.preset k) t e])
  | .doneWaiting k e => do
    let h ← sh.idle k
    let t ← h.task
    return (sh.setHolder k {h with task := none, calls := 1},
      [WaitingTaskHolder.doneWaiting (.object k h.kind) t e])
  | .destroy k => do
    let h ← sh.idle k
    return (sh.setHolder k {h with task := none},destroyed h.kind h.task)
  | .addCopy l k => do
    let h ← sh.holders[k]?
    let t ← h.task
    if h.kind = .plain then return (sh.increment t,[.add l t]) else none
  | .addMove l k => do
    let h ← sh.idle k
    let t ← h.task
    if h.kind = .plain then return (sh.setHolder k {h with task := none},[.add l t]) else none
  | .listDoneWaiting l e => some ({sh with list := Function.update sh.list l ⟨false,e⟩},[])
  | .listReset l => some ({sh with list := Function.update sh.list l ⟨true,none⟩},[])

abbrev State (E : Type) := Pool (Shared E) (Frame E)

inductive Action (E : Type) where
  | call (c : Call E)
  | act (thread : Nat)

/-- A call may be made by any thread: it starts as an activity of its own. -/
def next (s : State E) : Action E → Option (State E)
  | .call c => (call s.shared c).map fun (sh,frames) => ⟨sh,s.threads ++ frames.map fun f => [f]⟩
  | .act thread => s.step react thread ()

def initial (E : Type) : State E where
  shared := {
    holders := []
    refCount := fun _ => 0
    exceptionPtr := fun _ => none
    list := fun _ => ⟨true,none⟩
    created := []
    reported := []
    submitted := []
    executed := [] }
  threads := []

def owns (t : Nat) : Frame E → Nat
  | .dependentTaskFailed (.releasing _) u _ | .exchange (.releasing _) u _ | .release _ u
  | .add _ u | .node _ u | .announced _ u => if t = u then 1 else 0
  | .dependentTaskFailed (.preset _) _ _ | .exchange (.preset _) _ _
  | .returning _ | .enqueued _ | .execute _ => 0

def owners (sh : Shared E) (bag : Multiset (Frame E)) (t : Nat) : Nat :=
  sh.holders.countP (fun h => h.task = some t) + weigh (owns t) bag

def runs (t : Nat) : Frame E → Nat
  | .enqueued u | .execute u => if t = u then 1 else 0
  | _ => 0

/-- After the step every task has fewer owners than its counter has values. -/
def FewOwners (s : State E) (a : Action E) : Prop :=
  ∀ s', next s a = some s' → ∀ t, owners s'.shared s'.bag t < refCountLimit

end Machine
end ToyMtFramework.WaitingTaskHolder
