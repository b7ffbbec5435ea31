import ToyMtFramework.ProcessAll
import ToyMtFramework.ScheduleExceptions
import ToyMtFramework.SerialTaskQueue

/-! One event in a `Schedule` whose modules run through the `SerialTaskQueue`s themselves: each
access that `pickNextTask` makes to `m_tasks` and `m_taskChosen` is one step. The tasks of one
schedule are in one group, so the loop in `spawn` goes on with the next task it picks. Nobody
pauses a queue of the TBB framework. -/
namespace ToyMtFramework.Schedule.Queues
open Activities Transition
open ToyMtFramework.ProcessAll (QueueId runQueue)
open ToyMtFramework.SerialTaskQueue (Pick)

variable {L D E : Type}

structure QueuedTask (L D E : Type) where
  wrapper : Wrapper L D
  exceptionPtr : Option E

/-- `execute` runs a picked task in the loop of `spawn`, which calls `finishedTask` next. Whoever
picks a task in that loop, a runner, goes on with it; `push` spawns it. -/
inductive QueueFrame (L D E : Type) where
  | schedule (f : Frame L D E)
  | execute (q : QueueId L D) (t : QueuedTask L D E)
  | finishedTask (q : QueueId L D)
  | pickNextTask (q : QueueId L D) (pc : Pick) (runner : Bool)

structure QueueShared (L D E : Type) where
  schedule : Shared L D E
  tasks : QueueId L D → List (QueuedTask L D E)
  taskChosen : QueueId L D → Bool

section Machine
variable [DecidableEq L] [DecidableEq D]

def QueueShared.setTasks (sh : QueueShared L D E) (q : QueueId L D) (ts : List (QueuedTask L D E)) :
    QueueShared L D E :=
  {sh with tasks := Function.update sh.tasks q ts}

def QueueShared.choose (sh : QueueShared L D E) (q : QueueId L D) (chosen : Bool) : QueueShared L D E :=
  {sh with taskChosen := Function.update sh.taskChosen q chosen}

def pushed (job : Job L D E) (sh : Shared L D E) : Frame L D E → Option (QueueId L D × QueuedTask L D E)
  | .execute (.runModule w) => (runQueue job w).map fun q => (q,⟨w,sh.exceptionPtr (.runModule w)⟩)
  | _ => none

def tryPop (sh : QueueShared L D E) (q : QueueId L D) (empty : Pick) (runner : Bool) :
    Reaction (QueueShared L D E) (QueueFrame L D E) :=
  match sh.tasks q with
  | [] => ⟨sh,[.pickNextTask q empty runner],[]⟩
  | t :: ts =>
    if runner then ⟨sh.setTasks q ts,[.execute q t],[]⟩ else ⟨sh.setTasks q ts,[],[.execute q t]⟩

def pickNextTask (sh : QueueShared L D E) (q : QueueId L D) (runner : Bool) :
    Pick → Reaction (QueueShared L D E) (QueueFrame L D E)
  | .loadPauseCount => ⟨sh,[.pickNextTask q .claim runner],[]⟩
  | .claim =>
    if sh.taskChosen q then ⟨sh,[],[]⟩ else ⟨sh.choose q true,[.pickNextTask q .tryPop runner],[]⟩
  | .tryPop => tryPop sh q .release runner
  | .release => ⟨sh.choose q false,[.pickNextTask q .testEmpty runner],[]⟩
  | .testEmpty => ⟨sh,if (sh.tasks q).isEmpty then [] else [.pickNextTask q .reclaim runner],[]⟩
  | .reclaim =>
    if sh.taskChosen q then ⟨sh,[],[]⟩ else ⟨sh.choose q true,[.pickNextTask q .retryPop runner],[]⟩
  | .retryPop => tryPop sh q .rerelease runner
  | .rerelease => ⟨sh.choose q false,[],[]⟩

def react (job : Job L D E) (sh : QueueShared L D E) :
    QueueFrame L D E → Nat → Option (Reaction (QueueShared L D E) (QueueFrame L D E))
  | .schedule f, seed =>
    match pushed job sh.schedule f with
    | some (q,t) => some ⟨sh.setTasks q (sh.tasks q ++ [t]),[.pickNextTask q .loadPauseCount false],[]⟩
    | none => (Schedule.react job sh.schedule f seed).map fun r =>
      ⟨{sh with schedule := r.shared},r.calls.map .schedule,r.spawned.map .schedule⟩
  | .execute q t, _ =>
    some ⟨sh,[.schedule (.runModule t.wrapper t.exceptionPtr),.finishedTask q],[]⟩
  | .finishedTask q, _ => some ⟨sh.choose q false,[.pickNextTask q .loadPauseCount true],[]⟩
  | .pickNextTask q pc runner, _ => some (pickNextTask sh q runner pc)

abbrev State (L D E : Type) := Pool (QueueShared L D E) (QueueFrame L D E)

def next (job : Job L D E) (s : State L D E) : Action → Option (State L D E)
  | .act thread seed => s.step (react job) thread seed
  | .otherStreamFails =>
    some {s with shared := {s.shared with schedule := {s.shared.schedule with fatal := true}}}

def processing (sh : Shared L D E) : State L D E :=
  ⟨⟨sh,fun _ => [],fun _ => false⟩,[[.schedule .runPaths]]⟩

/-- A waiting task that is yet to be released does nothing by itself. -/
def parked (sh : QueueShared L D E) : QueueFrame L D E → Bool
  | .schedule (.node l _) => (sh.schedule.list l).waiting
  | _ => false

theorem parked_rests {job : Job L D E} {sh : QueueShared L D E} {f : QueueFrame L D E}
    (rests : parked sh f = true) (seed : Nat) : react job sh f seed = none := by
  cases f with
  | schedule f =>
    cases f with
    | node l t =>
      have waiting : (sh.schedule.list l).waiting = true := rests
      simp [react,pushed,Schedule.react,waiting]
    | _ => cases rests
  | _ => cases rests

/-- With nothing but such tasks left, no thread can act. -/
theorem parked_halts {job : Job L D E} {s : State L D E}
    (rests : s.threads.flatten.all (parked s.shared) = true) (thread seed : Nat) :
    next job s (.act thread seed) = none := by
  by_contra moves
  obtain ⟨t,taken⟩ := Option.ne_none_iff_exists'.mp moves
  obtain ⟨f,r,rest,reacted,_,_,_,top⟩ := Pool.step_bag taken
  have still := List.all_eq_true.mp rests f (Multiset.mem_coe.mp (Pool.top_mem top))
  rw [parked_rests still] at reacted
  cases reacted

/-- What has come to rest stays so, and the callback as it is, whatever the other streams do. -/
theorem parked_stays {job : Job L D E} {s t : State L D E}
    (rests : s.threads.flatten.all (parked s.shared) = true) (run : Reachable (next job) s t) :
    t.shared.schedule.released = s.shared.schedule.released := by
  have preserved (u : State L D E) (a : Action) (v : State L D E)
      (kept : u.threads.flatten.all (parked u.shared) = true ∧
        u.shared.schedule.released = s.shared.schedule.released)
      (_ : True) (taken : next job u a = some v) : v.threads.flatten.all (parked v.shared) = true ∧
        v.shared.schedule.released = s.shared.schedule.released := by
    cases a with
    | act thread seed =>
      rw [parked_halts kept.1] at taken
      cases taken
    | otherStreamFails =>
      cases taken
      exact kept
  exact (run.invariant preserved ⟨rests,rfl⟩).2

end Machine

/-- Three paths with a filter each, none of which is thread safe. -/
def threeUnsafe : Job Nat Unit Unit where
  filters := [0,1,2].map fun label => ⟨label,.threadUnsafe,[],[],fun _ _ _ => ⟨[],true,none⟩⟩
  producers := []
  paths := [[0],[1],[2]]

theorem threeUnsafe_acyclic : threeUnsafe.Acyclic :=
  acyclic_of_sources (by simp [threeUnsafe])

/-- The thread that ran filter 0 has found the queue empty, let go of it, seen the task of filter 1
and claimed the queue once more. In between that task was taken and run, so the thread finds nothing
again; before it lets go a second time, filter 2 is pushed and the queue found taken. -/
def strandedRun : List Action :=
  turns [(24,0),(4,3),(9,10),(1,6),(1,10),(3,6),(10,11),(2,10),(3,9),(1,10),(3,2),(3,5),(3,12),(3,13),
    (3,1),(3,4)]

set_option maxRecDepth 4096 in
/-- The task of filter 2 stays in the queue: no thread can act, and whatever happens elsewhere the
callback of the event is never released. -/
theorem callback_stranded : threeUnsafe.Acyclic ∧ ∃ s,
    Reachable (next threeUnsafe) (processing (fresh Unit Nat Unit 0)) s ∧
      (∀ thread seed, next threeUnsafe s (.act thread seed) = none) ∧
        ∀ t, Reachable (next threeUnsafe) s t → t.shared.schedule.released = [] := by
  have ran : (execute (next threeUnsafe) (processing (fresh Unit Nat Unit 0)) strandedRun).map (fun s =>
      (s.threads.flatten.all (parked s.shared),s.shared.schedule.released.length)) = some (true,0) := by
    decide +kernel
  obtain ⟨s,ran,left⟩ := Option.map_eq_some_iff.mp ran
  obtain ⟨rests,none⟩ := Prod.mk.inj left
  refine ⟨threeUnsafe_acyclic,s,execute_reachable _ ran,parked_halts rests,fun t run => ?_⟩
  rw [parked_stays rests run]
  exact List.eq_nil_of_length_eq_zero none

end ToyMtFramework.Schedule.Queues
