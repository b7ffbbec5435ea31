import ToyMtFramework.OpenMPAnnounceTasks
import ToyMtFramework.ScheduleLoop
import Mathlib.Data.List.Dedup

/-! The events of the streams of the OpenMP framework, over the waiting lists of the modules. Where `next`
resets a stream at once, here `Event::reset` and `Schedule::reset` go from wrapper to wrapper, store by store,
while the threads of the event before go on. A stream that the source refuses stops after its producers. -/
namespace ToyMtFramework.OpenMP.Announce
open Activities Transition
open ToyMtFramework.Schedule.Loop (ResetStep)

variable {L D E : Type}

/-- For each stream the wrappers that are yet to be reset, with the next store, or `none` while its event is
processed. -/
structure Events (L D E : Type) where
  modules : State L D E
  resets : Nat → Option (List (ModuleWrapper L D) × ResetStep)

inductive EventAction (L D : Type) where
  | act (thread : Nat) (choice : Choice)
  | request (w : ModuleWrapper L D) (region : Option Nat)
  | callback (stream : Nat)
  | reset (stream : Nat)
  deriving DecidableEq

def ofPath : TaskId L D → Bool
  | .outside => true
  | .runModule _ | .doneTask _ _ => false

/-- The frame has yet to release a task of a path, for a module of the stream. -/
def ListFrame.onPath (stream : Nat) (f : ListFrame L D E) : Bool :=
  match f.stage with
  | .act (.doWorkAsync w t) | .add w t => w.stream = stream && ofPath t
  | .walk w nodes _ | .look w nodes _ => w.stream = stream && nodes.any ofPath
  | _ => false

def Events.pathsDone (s : Events L D E) (stream : Nat) : Bool :=
  s.modules.threads.flatten.all (fun f => !f.onPath stream) &&
    s.modules.shared.heads.all fun x => !(x.1.stream = stream && ofPath x.2)

section Machine
variable [DecidableEq L] [DecidableEq D] (job : Job L D E)

def lookupMap : List (L × D) :=
  (job.producers.flatMap fun m => m.products.map fun d => (m.label,d)).dedup

def filterLabels : List L :=
  (job.filters.map Module.label).dedup

/-- What `Event::reset` and then `Schedule::reset` go through. -/
def wrappers (stream : Nat) : List (ModuleWrapper L D) :=
  (lookupMap job).map (fun k => ⟨stream,.producer k.1 k.2⟩) ++
    (filterLabels job).map fun label => ⟨stream,.filter label⟩

/-- `DataCache::reset`; of a filter it is `m_keep`, which no module sees. -/
def resetWrapper (sh : Shared L D E) (w : ModuleWrapper L D) : Shared L D E :=
  match w.key with
  | .filter _ => sh
  | .producer _ _ => {sh with
      cache := Function.update sh.cache w ⟨(sh.cache w).value,false⟩
      put := Function.update sh.put w none}

def resetWorkStarted (sh : Shared L D E) (w : ModuleWrapper L D) : Shared L D E where
  __ := sh
  workStarted := Function.update sh.workStarted w false
  ran := sh.ran.filter fun run => run.wrapper ≠ w
  outcomes := Function.update sh.outcomes w []

def resetWaitingTasks (sh : Shared L D E) (w : ModuleWrapper L D) : Shared L D E :=
  {sh with list := Function.update sh.list w ⟨true,none⟩}

def resetNext (sh : Shared L D E) : List (ModuleWrapper L D) × ResetStep →
    Shared L D E × Option (List (ModuleWrapper L D) × ResetStep)
  | ([],_) => (sh,none)
  | (w :: ws,.wrapper) => (resetWrapper sh w,some (w :: ws,.workStarted))
  | (w :: ws,.workStarted) => (resetWorkStarted sh w,some (w :: ws,.waitingTasks))
  | (w :: ws,.waitingTasks) => (resetWaitingTasks sh w,some (ws,.wrapper))

def Events.next (s : Events L D E) : EventAction L D → Option (Events L D E)
  | .act thread choice => (Announce.next job s.modules (.act thread choice)).map fun modules => {s with modules}
  | .request w region =>
    if (s.resets w.stream).isNone then
      (Announce.next job s.modules (.request w region)).map fun modules => {s with modules}
    else none
  | .callback stream =>
    if (s.resets stream).isNone && s.pathsDone stream then
      some {s with resets := Function.update s.resets stream (some (wrappers job stream,.wrapper))}
    else none
  | .reset stream => (s.resets stream).map fun ahead =>
    let left := resetNext s.modules.shared.base ahead
    { modules := {s.modules with shared := {s.modules.shared with base := left.1}}
      resets := Function.update s.resets stream left.2 }

def Events.initial : Events L D E :=
  ⟨Announce.initial L D E,fun stream => some (wrappers job stream,.wrapper)⟩

end Machine

def runs (stream : Nat) : TaskId L D → Bool
  | .runModule w => w.stream = stream
  | .doneTask _ _ | .outside => false

/-- The module waits in its queue, or `doneWaiting` is announcing it. -/
def ListFrame.pending (f : ListFrame L D E) : Option (ModuleWrapper L D) :=
  match f.stage with
  | .act (.queued w _) | .announce w false | .walk w _ false | .look w _ false => some w
  | _ => none

/-- A module of the stream has been started, and has yet to return from `doneWaiting`. -/
def ListFrame.atWork (stream : Nat) (f : ListFrame L D E) : Bool :=
  f.tasks.any (runs stream) || f.pending.any fun w => w.stream = stream

/-- A call of `doWorkAsync` has yet to exchange `m_workStarted`. -/
def ListFrame.calling (f : ListFrame L D E) : Option (ModuleWrapper L D) :=
  match f.stage with
  | .act (.startWork w) | .add w _ | .recheck w | .announce w true | .walk w _ true | .look w _ true => some w
  | _ => none

def Events.unstarting (s : Events L D E) (stream : Nat) : Option (ModuleWrapper L D) :=
  match s.resets stream with
  | some (w :: _,.workStarted) => some w
  | _ => none

/-- No event ends while a module of it is at work, and no module is reset while a call of `doWorkAsync` on it
has yet to exchange the flag. -/
def Events.Unhurried (s : Events L D E) : EventAction L D → Prop
  | .act _ _ | .request _ _ => True
  | .callback stream => (∀ f ∈ s.modules.bag, f.atWork stream = false) ∧
    ∀ x ∈ s.modules.shared.heads, runs stream x.2 = false
  | .reset stream => ∀ w ∈ s.unstarting stream, ∀ f ∈ s.modules.bag, f.calling ≠ some w

instance [DecidableEq L] [DecidableEq D] (s : Events L D E) : (a : EventAction L D) → Decidable (s.Unhurried a)
  | .act _ _ | .request _ _ => .isTrue trivial
  | .callback stream => inferInstanceAs (Decidable ((∀ f ∈ s.modules.bag, f.atWork stream = false) ∧
      ∀ x ∈ s.modules.shared.heads, runs stream x.2 = false))
  | .reset stream =>
    inferInstanceAs (Decidable (∀ w ∈ s.unstarting stream, ∀ f ∈ s.modules.bag, f.calling ≠ some w))

end ToyMtFramework.OpenMP.Announce
