import ToyMtFramework.ScheduleRound
import Mathlib.Data.List.Dedup

/-! One schedule going from event to event: `EventProcessor::handleNextEventAsync`.
The callback of an event starts the task that resets the event and the filters, store
by store, and processes the next event. Threads of the last event may still be in a call
of `doWorkAsync` then. The source gives this stream the listed events. -/
namespace ToyMtFramework.Schedule.Loop
open Activities Transition

variable {L D E : Type}

/-- The next store of a reset: `m_wasCached` or `m_keep`, then the two of
`ModuleWrapper::reset`. -/
inductive ResetStep where
  | wrapper
  | workStarted
  | waitingTasks
  deriving DecidableEq

inductive LoopFrame (L D E : Type) where
  | schedule (f : Frame L D E)
  | handleNextEventAsync (e : Option E)
  | eventReset (entries : List (L × D)) (step : ResetStep)
  | scheduleReset (filters : List L) (step : ResetStep)

structure LoopShared (L D E : Type) where
  schedule : Shared L D E
  source : List Nat

section Machine
variable [DecidableEq L] [DecidableEq D]

def lookupMap (job : Job L D E) : List (L × D) :=
  (job.producers.flatMap fun m => m.products.map fun d => (m.label,d)).dedup

def filterLabels (job : Job L D E) : List L :=
  (job.filters.map Module.label).dedup

def resetCache (sh : Shared L D E) (label : L) (product : D) : Shared L D E where
  __ := sh
  cache := Function.update sh.cache label
    (Function.update (sh.cache label) product ⟨(sh.cache label product).value,false⟩)

def resetKeep (sh : Shared L D E) (label : L) : Shared L D E :=
  {sh with keep := Function.update sh.keep label false}

def resetWorkStarted (sh : Shared L D E) (w : Wrapper L D) : Shared L D E where
  __ := sh
  workStarted := Function.update sh.workStarted w false
  resets := Function.update sh.resets w (sh.resets w + 1)

def resetWaitingTasks (sh : Shared L D E) (w : Wrapper L D) : Shared L D E :=
  sh.setList (.waitingTasks w) ⟨true,none⟩

/-- The source has accepted the event; its callback is yet to be released. -/
def setEventInfo (sh : Shared L D E) (eventIndex : Nat) : Shared L D E :=
  {sh with eventIndex, released := []}

/-- The source is at its end: `setEventInfo` has written the index before it answers. -/
def refuseEvent (sh : Shared L D E) (eventIndex : Nat) : Shared L D E :=
  {sh with eventIndex}

def recursiveTask : Frame L D E → List (LoopFrame L D E)
  | .callback e => [.handleNextEventAsync e]
  | _ => []

def react (job : Job L D E) (sh : LoopShared L D E) :
    LoopFrame L D E → Nat → Option (Reaction (LoopShared L D E) (LoopFrame L D E))
  | .schedule f, seed => (Schedule.react job sh.schedule f seed).map fun r =>
    ⟨{sh with schedule := r.shared},r.calls.map .schedule,r.spawned.map .schedule ++ recursiveTask f⟩
  | .handleNextEventAsync (some _), _ => some ⟨sh,[],[]⟩
  | .handleNextEventAsync none, _ => some ⟨sh,[.eventReset (lookupMap job) .wrapper],[]⟩
  | .eventReset [] _, seed =>
    match sh.source with
    | [] => some ⟨{sh with schedule := refuseEvent sh.schedule seed},[],[]⟩
    | eventIndex :: source =>
      some ⟨⟨setEventInfo sh.schedule eventIndex,source⟩,[.scheduleReset (filterLabels job) .wrapper],[]⟩
  | .eventReset (k :: ks) .wrapper, _ =>
    some ⟨{sh with schedule := resetCache sh.schedule k.1 k.2},[.eventReset (k :: ks) .workStarted],[]⟩
  | .eventReset (k :: ks) .workStarted, _ =>
    some ⟨{sh with schedule := resetWorkStarted sh.schedule (.producer k.1 k.2)},
      [.eventReset (k :: ks) .waitingTasks],[]⟩
  | .eventReset (k :: ks) .waitingTasks, _ =>
    some ⟨{sh with schedule := resetWaitingTasks sh.schedule (.producer k.1 k.2)},
      [.eventReset ks .wrapper],[]⟩
  | .scheduleReset [] _, _ => some ⟨sh,[.schedule .runPaths],[]⟩
  | .scheduleReset (l :: ls) .wrapper, _ =>
    some ⟨{sh with schedule := resetKeep sh.schedule l},[.scheduleReset (l :: ls) .workStarted],[]⟩
  | .scheduleReset (l :: ls) .workStarted, _ =>
    some ⟨{sh with schedule := resetWorkStarted sh.schedule (.filter l)},
      [.scheduleReset (l :: ls) .waitingTasks],[]⟩
  | .scheduleReset (l :: ls) .waitingTasks, _ =>
    some ⟨{sh with schedule := resetWaitingTasks sh.schedule (.filter l)},
      [.scheduleReset ls .wrapper],[]⟩

/-- A frame of the schedule acts as it does within one event. -/
theorem react_schedule {job : Job L D E} {sh : LoopShared L D E} {f : Frame L D E} {seed : Nat}
    {r : Reaction (LoopShared L D E) (LoopFrame L D E)}
    (reacted : react job sh (.schedule f) seed = some r) : ∃ inner,
      Schedule.react job sh.schedule f seed = some inner ∧ r.shared = {sh with schedule := inner.shared} ∧
        r.frames = inner.frames.map .schedule + (↑(recursiveTask f) : Multiset (LoopFrame L D E)) := by
  obtain ⟨inner,made,rfl⟩ := Option.map_eq_some_iff.mp reacted
  exact ⟨inner,made,rfl,by simp [Reaction.frames,← Multiset.coe_add,add_assoc]⟩

abbrev State (L D E : Type) := Pool (LoopShared L D E) (LoopFrame L D E)

def next (job : Job L D E) (s : State L D E) : Action → Option (State L D E)
  | .act thread seed => s.step (react job) thread seed
  | .otherStreamFails =>
    some {s with shared := {s.shared with schedule := {s.shared.schedule with fatal := true}}}

def initial (L D E : Type) (source : List Nat) : State L D E :=
  ⟨⟨fresh E L D 0,source⟩,[[.handleNextEventAsync none]]⟩

def resetting : LoopFrame L D E → Option (Wrapper L D)
  | .eventReset (k :: _) .workStarted => some (.producer k.1 k.2)
  | .scheduleReset (l :: _) .workStarted => some (.filter l)
  | _ => none

def calling (w : Wrapper L D) : LoopFrame L D E → Nat
  | .schedule (.startWork v _) => if w = v then 1 else 0
  | _ => 0

/-- No module is reset while a call of `doWorkAsync` on it has yet to exchange the flag. -/
def Quiet (s : State L D E) : Action → Prop
  | .act thread _ => ∀ w ∈ (s.top thread).bind resetting, weigh (calling w) s.bag = 0
  | .otherStreamFails => True

instance (s : State L D E) : (a : Action) → Decidable (Quiet s a)
  | .act thread _ =>
    inferInstanceAs (Decidable (∀ w ∈ (s.top thread).bind resetting, weigh (calling w) s.bag = 0))
  | .otherStreamFails => .isTrue trivial

end Machine
end ToyMtFramework.Schedule.Loop
