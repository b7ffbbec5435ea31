import ToyMtFramework.ScheduleLoopRounds
import Mathlib.Data.Multiset.Bind

/-! The calls of `announce` on the lists of the modules, over the events of one schedule. Where
`Loop` lets any thread release the tasks of a finished module, here `doneWaiting` and `add` take
the nodes out of the list and walk along them. What a node is linked to is left to the model of
one list; a node is known by its list and its task. -/
namespace ToyMtFramework.Schedule.Announce
open Activities Transition Loop

variable {L D E : Type}

/-- From `announce` on: `after` is the exchange of `m_workStarted` by the call of `doWorkAsync`
that `announce` is part of, if it is not part of `doneWaiting`. -/
inductive ListFrame (L D E : Type) where
  | loop (g : LoopFrame L D E)
  /-- `add` has found `m_waiting` true and is about to put its node in the list. -/
  | add (w : Wrapper L D) (t : TaskId L D) (added : Nat)
  | recheck (w : Wrapper L D) (added : Nat)
  | announce (w : Wrapper L D) (after : Option Nat)
  | walk (w : Wrapper L D) (nodes : List (TaskId L D)) (after : Option Nat)
  /-- The task of a node is released, its `m_fromCache` is still to be looked at. -/
  | look (w : Wrapper L D) (nodes : List (TaskId L D)) (after : Option Nat)

structure ListShared (L D E : Type) where
  loop : LoopShared L D E
  /-- The nodes behind the `m_head` of each list, the newest first. -/
  heads : List (Wrapper L D × TaskId L D)

def ListShared.waiting (sh : ListShared L D E) (w : Wrapper L D) : Bool :=
  (sh.loop.schedule.list (.waitingTasks w)).waiting

def resume (w : Wrapper L D) (after : Option Nat) : List (LoopFrame L D E) :=
  (after.map fun added => .schedule (.startWork w added)).toList

section Machine
variable [DecidableEq L] [DecidableEq D]

def ListShared.nodes (sh : ListShared L D E) (w : Wrapper L D) : List (TaskId L D) :=
  (sh.heads.filter fun node => node.1 = w).map Prod.snd

def announcement : LoopFrame L D E → List (ListFrame L D E)
  | .schedule (.doneWaiting (.waitingTasks w) _) => [.announce w none]
  | _ => []

def adds (sh : ListShared L D E) : LoopFrame L D E → Option (Wrapper L D × TaskId L D)
  | .schedule (.doWorkAsync w t) => if sh.waiting w then some (w,t) else none
  | _ => none

def react (job : Job L D E) (sh : ListShared L D E) :
    ListFrame L D E → Nat → Option (Reaction (ListShared L D E) (ListFrame L D E))
  | .loop g, seed => (Loop.react job sh.loop g seed).map fun r => match adds sh g with
    | some (w,t) => ⟨{sh with loop := r.shared},[.add w t (sh.loop.schedule.resets w)],[]⟩
    | none => ⟨{sh with loop := r.shared},r.calls.map .loop ++ announcement g,r.spawned.map .loop⟩
  | .add w t added, _ =>
    some ⟨{sh with heads := (w,t) :: sh.heads},
      if sh.nodes w = [] then [.recheck w added] else [.loop (.schedule (.startWork w added))],[]⟩
  | .recheck w added, _ =>
    some ⟨sh,if sh.waiting w then [.loop (.schedule (.startWork w added))] else [.announce w (some added)],[]⟩
  | .announce w after, _ =>
    some ⟨{sh with heads := sh.heads.filter fun node => node.1 ≠ w},[.walk w (sh.nodes w) after],[]⟩
  | .walk w [] after, _ => some ⟨sh,(resume w after).map .loop,[]⟩
  | .walk w (t :: nodes) after, _ =>
    some ⟨sh,[.loop (.schedule (.doneWaitingTask t (sh.loop.schedule.list (.waitingTasks w)).exceptionPtr)),
      .look w nodes after],[]⟩
  | .look w nodes after, _ => some ⟨sh,[.walk w nodes after],[]⟩

abbrev State (L D E : Type) := Pool (ListShared L D E) (ListFrame L D E)

def next (job : Job L D E) (s : State L D E) : Action → Option (State L D E)
  | .act thread seed => s.step (react job) thread seed
  | .otherStreamFails => some {s with shared := {s.shared with loop := {s.shared.loop with
      schedule := {s.shared.loop.schedule with fatal := true}}}}

def initial (L D E : Type) (source : List Nat) : State L D E :=
  ⟨⟨(Loop.initial L D E source).shared,[]⟩,[[.loop (.handleNextEventAsync none)]]⟩

def resettingList : LoopFrame L D E → Option (Wrapper L D)
  | .eventReset (k :: _) .waitingTasks => some (.producer k.1 k.2)
  | .scheduleReset (l :: _) .waitingTasks => some (.filter l)
  | _ => none

def announcing (w : Wrapper L D) : ListFrame L D E → Nat
  | .announce v _ | .walk v _ _ | .look v _ _ => if w = v then 1 else 0
  | _ => 0

def calling (w : Wrapper L D) : ListFrame L D E → Nat
  | .loop g => Loop.calling w g
  | .add v _ _ | .recheck v _ | .announce v (some _) | .walk v _ (some _) | .look v _ (some _) =>
    if w = v then 1 else 0
  | _ => 0

def finishing : ListFrame L D E → Nat
  | .announce _ none | .walk _ _ none | .look _ _ none => 1
  | _ => 0

def resettingFlag : ListFrame L D E → Option (Wrapper L D)
  | .loop g => resetting g
  | _ => none

def endsEvent : ListFrame L D E → Bool
  | .loop (.schedule (.callback _)) => true
  | _ => false

/-- No module is reset while a call of `doWorkAsync` on it has yet to exchange the flag, and no
event ends while `doneWaiting` of a module's list has yet to return. -/
def Unhurried (s : State L D E) : Action → Prop
  | .act thread _ => (∀ w ∈ (s.top thread).bind resettingFlag, weigh (calling w) s.bag = 0) ∧
    ((s.top thread).any endsEvent = true → weigh finishing s.bag = 0)
  | .otherStreamFails => True

instance (s : State L D E) : (a : Action) → Decidable (Unhurried s a)
  | .act thread _ =>
    inferInstanceAs (Decidable ((∀ w ∈ (s.top thread).bind resettingFlag, weigh (calling w) s.bag = 0) ∧
      ((s.top thread).any endsEvent = true → weigh finishing s.bag = 0)))
  | .otherStreamFails => .isTrue trivial

end Machine
end ToyMtFramework.Schedule.Announce
