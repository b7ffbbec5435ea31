import ToyMtFramework.ScheduleLoopRounds

/-! The stream of events in both frameworks, with a log of the event in progress.
TBB's waiting tasks are members of the path, wrapper or schedule and are used again; OpenMP makes
a new one each time, so it has no holder and no exception to begin with. All else is the same. -/
namespace ToyMtFramework.Schedule
open Activities Transition

variable {L D E : Type}

inductive Framework where
  | tbb
  | openMP
  deriving DecidableEq, Repr

inductive Entry (L D E : Type) where
  | runAsync (p : Nat)
  | requested (p i : Nat)
  | performed (w : Wrapper L D) (outcome : Outcome D E)
  | finished (w : Wrapper L D) (e : Option E)
  | reported (p : Nat) (e : Option E)

section Machine
variable [DecidableEq L] [DecidableEq D]

/-- The task gets its first holder; in OpenMP `make_waiting_task` has just made it. -/
def Shared.firstHold (framework : Framework) (sh : Shared L D E) (t : TaskId L D) : Shared L D E :=
  match framework with
  | .tbb => sh.hold t
  | .openMP => { sh with
    refCount := Function.update sh.refCount t 1
    exceptionPtr := Function.update sh.exceptionPtr t none }

def reactIn (framework : Framework) (job : Job L D E) (sh : Shared L D E) :
    Frame L D E → Nat → Option (Reaction (Shared L D E) (Frame L D E))
  | .runPaths, _ =>
    if job.paths = [] then some ⟨sh,[.callback none],[]⟩
    else some ⟨sh.firstHold framework .allPathsDone,[.launch (List.range job.paths.length)],[]⟩
  | .runFilterAsync p i, _ =>
    if sh.fatal then some ⟨sh,[.doneWaiting (.callback p) none],[]⟩
    else match (job.path p)[i]? with
      | none => none
      | some label => some ⟨(sh.setIndex p i).firstHold framework (.nextFilter p),
        [.doWorkAsync (.filter label) (.nextFilter p)],[]⟩
  | .startWork w added, _ =>
    if sh.workStarted w then some ⟨sh,[],[]⟩
    else
      some ⟨(sh.start w added).firstHold framework (.runModule w),[.prefetch w (job.getters w)],[]⟩
  | f, seed => react job sh f seed

theorem reactIn_tbb (job : Job L D E) (sh : Shared L D E) (f : Frame L D E) (seed : Nat) :
    reactIn .tbb job sh f seed = react job sh f seed := by
  cases f <;> rfl

structure Blank (sh : Shared L D E) (f : Frame L D E) : Prop where
  runPaths : f = .runPaths → sh.refCount .allPathsDone = 0 ∧ sh.exceptionPtr .allPathsDone = none
  runFilterAsync : ∀ p i, f = .runFilterAsync p i →
    sh.refCount (.nextFilter p) = 0 ∧ sh.exceptionPtr (.nextFilter p) = none
  startWork : ∀ w added, f = .startWork w added → sh.workStarted w = false →
    sh.refCount (.runModule w) = 0 ∧ sh.exceptionPtr (.runModule w) = none

/-- With nothing left in it, a task that is used again is like a new one. -/
theorem firstHold_blank (framework : Framework) {sh : Shared L D E} {t : TaskId L D}
    (unheld : sh.refCount t = 0) (empty : sh.exceptionPtr t = none) :
    sh.firstHold framework t = sh.hold t := by
  cases framework with
  | tbb => rfl
  | openMP =>
    have counts : Function.update sh.refCount t 1 = fun u => sh.refCount u + if u = t then 1 else 0 := by
      ext u
      by_cases same : u = t
      · subst u
        simp [unheld]
      · simp [same]
    have exceptions : Function.update sh.exceptionPtr t none = sh.exceptionPtr := by
      rw [← empty,Function.update_eq_self]
    simp [Shared.firstHold,Shared.hold,counts,exceptions]

theorem reactIn_blank (framework : Framework) (job : Job L D E) {sh : Shared L D E} {f : Frame L D E}
    (blank : Blank sh f) (seed : Nat) : reactIn framework job sh f seed = react job sh f seed := by
  cases f with
  | runPaths =>
    obtain ⟨unheld,empty⟩ := blank.runPaths rfl
    simp only [reactIn,react,firstHold_blank framework unheld empty]
  | runFilterAsync p i =>
    obtain ⟨unheld,empty⟩ := blank.runFilterAsync p i rfl
    have same := firstHold_blank framework (show (sh.setIndex p i).refCount (.nextFilter p) = 0 from unheld) empty
    cases at_i : (job.path p)[i]? with
    | none => simp only [reactIn,react,at_i]
    | some label => simp only [reactIn,react,at_i,same]
  | startWork w added =>
    cases started : sh.workStarted w with
    | true => simp [reactIn,react,started]
    | false =>
      obtain ⟨unheld,empty⟩ := blank.startWork w added rfl started
      simp only [reactIn,react,
        firstHold_blank framework (show (sh.start w added).refCount (.runModule w) = 0 from unheld) empty]
  | _ => rfl

def entries (job : Job L D E) (sh : Shared L D E) : Frame L D E → Nat → List (Entry L D E)
  | .runAsync p, _ => [.runAsync p]
  | .runFilterAsync p i, _ => if sh.fatal then [] else [.requested p i]
  | .body w [] values, seed => [.performed w (job.perform w seed sh.eventIndex values)]
  | .doneWaiting (.waitingTasks w) e, _ => [.finished w e]
  | .doneWaiting (.callback p) e, _ => [.reported p e]
  | _, _ => []

namespace Loop

def reactIn (framework : Framework) (job : Job L D E) (sh : LoopShared L D E) :
    LoopFrame L D E → Nat → Option (Reaction (LoopShared L D E) (LoopFrame L D E))
  | .schedule f, seed => (Schedule.reactIn framework job sh.schedule f seed).map fun r =>
    ⟨{sh with schedule := r.shared},r.calls.map .schedule,r.spawned.map .schedule ++ recursiveTask f⟩
  | c, seed => react job sh c seed

def nextIn (framework : Framework) (job : Job L D E) (s : State L D E) : Action → Option (State L D E)
  | .act thread seed => s.step (reactIn framework job) thread seed
  | .otherStreamFails => next job s .otherStreamFails

def logged (job : Job L D E) (sh : LoopShared L D E) (log : List (Entry L D E)) (seed : Nat) :
    LoopFrame L D E → List (Entry L D E)
  | .schedule f => log ++ entries job sh.schedule f seed
  | .scheduleReset [] _ => []
  | _ => log

def record (job : Job L D E) (s : State L D E) (a : Action) (log : List (Entry L D E)) :
    List (Entry L D E) :=
  match a with
  | .act thread seed => (s.top thread).elim log (logged job s.shared log seed)
  | .otherStreamFails => log

def nextLogged (framework : Framework) (job : Job L D E) :
    State L D E × List (Entry L D E) → Action → Option (State L D E × List (Entry L D E)) :=
  recording (nextIn framework job) (record job)

theorem nextIn_tbb (job : Job L D E) (s : State L D E) (a : Action) :
    nextIn .tbb job s a = next job s a := by
  have same : reactIn .tbb job = react job := by
    funext sh g seed
    cases g with
    | schedule f => simp only [reactIn,react,reactIn_tbb]
    | _ => rfl
  cases a with
  | act thread seed => simp only [nextIn,next,same]
  | otherStreamFails => rfl

end Loop
end Machine
end ToyMtFramework.Schedule
