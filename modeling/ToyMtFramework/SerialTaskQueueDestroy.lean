import ToyMtFramework.SerialTaskQueueWakeup

/-! What the destructor of the TBB queue does when no other thread is inside a queue
operation. It decides with `isPaused`, which is true when the queue is not paused, and
with the claim; its last task can only be picked when nothing holds the queue. -/
namespace ToyMtFramework.SerialTaskQueue
open Transition

variable {ι γ : Type}

def State.isPaused (s : State ι γ) : Bool :=
  s.pauseCount = 0

/-- Whether the destructor pushes a task and waits for it. -/
def State.drains (s : State ι γ) : Bool :=
  (¬s.tasks = [] ∧ ¬s.isPaused) ∨ s.taskChosen

/-- No thread is inside a queue operation; a chosen task may be waiting for its group or executing. -/
def BetweenCalls (s : State ι γ) : Prop :=
  ∀ i, (s.thread i).call = .outside

section Drain
variable [DecidableEq ι] [DecidableEq γ]

def CanRun (s : State ι γ) (d : ι) (task : QueuedTask γ) : Prop :=
  ∃ u t i, next .tbb s (.push d task) = some u ∧ Reachable (next .tbb) u t ∧
    (t.thread i).running = some task

/-- What is asked of the destructor: it waits for a task that can be executed, or nothing is
executing and no task could be taken. -/
structure DestroysWell (s : State ι γ) : Prop where
  drains : s.drains = true → s.pauseCount = 0 ∧
    ∀ d task, s.thread d = ⟨none,.outside⟩ → CanRun s d task
  skips : s.drains = false → (s.spawned = [] ∧ ∀ i, (s.thread i).running = none) ∧
    (s.tasks = [] ∨ s.pauseCount ≠ 0)

def State.goOn (s : State ι γ) (i : ι) (task : QueuedTask γ) (rest : List (QueuedTask γ)) : State ι γ where
  __ := s.setThread i ⟨some task,.outside⟩
  tasks := rest
  taskChosen := true

theorem goOn_reachable {s : State ι γ} {i : ι} {executing task : QueuedTask γ} {rest : List (QueuedTask γ)}
    (thread : s.thread i = ⟨some executing,.outside⟩) (unpaused : s.pauseCount = 0)
    (empty : s.spawned = []) (tasks : s.tasks = task :: rest) :
    Reachable (next .tbb) s (s.goOn i task rest) := by
  by_cases kept : task.group = executing.group
  · apply execute_reachable [.finishedTask i,.advance i,.advance i,.advance i]
    simp [execute,next,advance,thread,unpaused,tasks,State.setThread,State.setCall,receive,kept,
      State.goOn,Function.update_self,Function.update_idem]
  · apply execute_reachable [.finishedTask i,.advance i,.advance i,.advance i,.advance i,.start i]
    simp [execute,next,advance,thread,unpaused,tasks,empty,State.setThread,State.setCall,receive,kept,
      State.goOn,Function.update_self,Function.update_idem]

/-- The claim of the pushing thread is refused as long as another task is chosen. -/
theorem push_reachable {s : State ι γ} {d : ι} (thread : s.thread d = ⟨none,.outside⟩)
    (unpaused : s.pauseCount = 0) (set : s.taskChosen = true) (task : QueuedTask γ) :
    ∃ u, next .tbb s (.push d task) = some u ∧
      Reachable (next .tbb) u {s with tasks := s.tasks ++ [task]} := by
  have back : Function.update s.thread d ⟨none,.outside⟩ = s.thread := by
    rw [← thread]
    exact Function.update_eq_self d s.thread
  refine ⟨{s.setThread d ⟨none,.picking .loadPauseCount .spawner⟩ with tasks := s.tasks ++ [task]},?_,?_⟩
  · simp [next,thread,State.setCall,State.setThread]
  · apply execute_reachable [.advance d,.advance d]
    simp [execute,next,advance,unpaused,set,State.setThread,State.setCall,Function.update_idem,back]

/-- With no pause the tasks of the queue are executed one after the other. -/
theorem tasks_reachable {s : State ι γ} {i : ι} {executing task : QueuedTask γ} {before : List (QueuedTask γ)}
    (thread : s.thread i = ⟨some executing,.outside⟩) (unpaused : s.pauseCount = 0)
    (empty : s.spawned = []) (tasks : s.tasks = before ++ [task]) :
    ∃ t, Reachable (next .tbb) s t ∧ (t.thread i).running = some task := by
  induction before generalizing s executing with
  | nil =>
    refine ⟨s.goOn i task [],goOn_reachable thread unpaused empty tasks,?_⟩
    simp [State.goOn,State.setThread]
  | cons first before ih =>
    have run := goOn_reachable thread unpaused empty tasks
    have next : (s.goOn i first (before ++ [task])).thread i = ⟨some first,.outside⟩ :=
      Function.update_self i _ s.thread
    obtain ⟨t,later,executes⟩ := ih next unpaused empty rfl
    exact ⟨t,run.trans later,executes⟩

omit [DecidableEq ι] [DecidableEq γ] in
/-- Between calls a chosen task is waiting for its group or executing. -/
theorem chosen_task {s : State ι γ} (owned : Ownership s) (between : BetweenCalls s) (set : s.taskChosen = true) :
    (∃ task, s.spawned = [task]) ∨ s.spawned = [] ∧ ∃ i task, s.thread i = ⟨some task,.outside⟩ := by
  cases owned with
  | free unset => simp [set] at unset
  | pending task _ one => exact .inl ⟨task,one⟩
  | held i _ empty owner =>
    rcases eq : s.thread i with ⟨running,call⟩
    have outside : call = .outside := by
      have := between i
      rwa [eq] at this
    subst outside
    cases running with
    | none => simp [eq,Thread.claims,Call.claims] at owner
    | some task => exact .inr ⟨empty,i,task,eq⟩

omit [DecidableEq ι] [DecidableEq γ] in
theorem nothing_chosen {s : State ι γ} (owned : Ownership s) (unset : s.taskChosen = false) :
    s.spawned = [] ∧ ∀ i, (s.thread i).running = none := by
  cases owned with
  | free _ empty threads =>
    refine ⟨empty,fun i => ?_⟩
    have light := threads i
    by_contra working
    simp [Thread.claims,Option.isSome_iff_ne_none.mpr working] at light
  | pending _ set => simp [unset] at set
  | held _ set => simp [unset] at set

theorem canRun_of_chosen {s : State ι γ} (owned : Ownership s) (between : BetweenCalls s)
    (unpaused : s.pauseCount = 0) (set : s.taskChosen = true) {d : ι} (thread : s.thread d = ⟨none,.outside⟩)
    (task : QueuedTask γ) : CanRun s d task := by
  obtain ⟨u,pushed,claimed⟩ := push_reachable thread unpaused set task
  rcases chosen_task owned between set with ⟨first,one⟩ | ⟨empty,i,executing,running⟩
  · -- The pushing thread helps its group, and starts the task that is waiting.
    have started : Reachable (next .tbb) {s with tasks := s.tasks ++ [task]}
        {s.setThread d ⟨some first,.outside⟩ with tasks := s.tasks ++ [task], spawned := []} := by
      apply execute_reachable [.start d]
      simp [execute,next,one,thread,State.setThread]
    obtain ⟨t,run,executes⟩ := tasks_reachable (i := d) (s := {s.setThread d ⟨some first,.outside⟩ with
      tasks := s.tasks ++ [task], spawned := []}) (Function.update_self d _ s.thread) unpaused rfl rfl
    exact ⟨u,t,d,pushed,(claimed.trans started).trans run,executes⟩
  · obtain ⟨t,run,executes⟩ := tasks_reachable (s := {s with tasks := s.tasks ++ [task]}) running unpaused
      empty rfl
    exact ⟨u,t,i,pushed,claimed.trans run,executes⟩

/-- The destructor does well when nothing is left or something executes in a queue that is not paused. -/
theorem destroys_well_iff (s : State ι γ) (reached : Reachable (next .tbb) (initial ι γ) s)
    (between : BetweenCalls s) :
    DestroysWell s ↔ (s.tasks = [] ∧ s.taskChosen = false) ∨ (s.pauseCount = 0 ∧ s.taskChosen = true) := by
  have owned := reaches_ownership reached
  constructor
  · intro well
    cases chosen : s.taskChosen with
    | true => exact .inr ⟨(well.drains (by simp [State.drains,chosen])).1,rfl⟩
    | false =>
      by_cases empty : s.tasks = []
      · exact .inl ⟨empty,rfl⟩
      by_cases unpaused : s.pauseCount = 0
      · have left := (well.skips (by simp [State.drains,State.isPaused,chosen,unpaused])).2
        exact absurd unpaused (left.resolve_left empty)
      · have drained := well.drains (by simp [State.drains,State.isPaused,empty,unpaused])
        exact absurd drained.1 unpaused
  · rintro (⟨empty,unset⟩ | ⟨unpaused,set⟩)
    · refine ⟨fun drains => ?_,fun _ => ⟨nothing_chosen owned unset,.inl empty⟩⟩
      simp [State.drains,empty,unset] at drains
    · refine ⟨fun _ => ⟨unpaused,fun d task thread => canRun_of_chosen owned between unpaused set thread task⟩,?_⟩
      intro skips
      simp [State.drains,set] at skips

end Drain

def oneWaits : List (Action (Fin 2) Unit) :=
  [.push 0 ⟨0,()⟩,.advance 0,.advance 0,.advance 0,.advance 0,.start 0,.push 1 ⟨1,()⟩,.advance 1,.advance 1]

theorem destroys_well_iff_oneWaits :
    ∃ s, execute (next .tbb) (initial (Fin 2) Unit) oneWaits = some s ∧ s.tasks = [⟨1,()⟩] ∧ DestroysWell s := by
  obtain ⟨s,ran,between,tasks,unpaused,chosen⟩ : ∃ s, execute (next .tbb) (initial (Fin 2) Unit) oneWaits = some s ∧
      BetweenCalls s ∧ s.tasks = [⟨1,()⟩] ∧ s.pauseCount = 0 ∧ s.taskChosen = true :=
    ⟨_,rfl,Fin.forall_fin_two.mpr ⟨rfl,rfl⟩,rfl,rfl,rfl⟩
  exact ⟨s,ran,tasks,(destroys_well_iff s (execute_reachable _ ran) between).mpr (.inr ⟨unpaused,chosen⟩)⟩

/-- The destructor waits for a task that nobody may pick. -/
theorem pausedQueue_drains :
    ¬∀ s, Reachable (next .tbb) (initial (Fin 2) Unit) s → BetweenCalls s → DestroysWell s := by
  intro all
  obtain ⟨s,ran,between,drains,paused⟩ : ∃ s, execute (next .tbb) (initial (Fin 2) Unit)
      [.pause 0,.push 0 ⟨0,()⟩,.advance 0] = some s ∧ BetweenCalls s ∧ s.drains = true ∧ s.pauseCount = 1 :=
    ⟨_,rfl,Fin.forall_fin_two.mpr ⟨rfl,rfl⟩,rfl,rfl⟩
  have unpaused := ((all s (execute_reachable _ ran) between).drains drains).1
  simp [paused] at unpaused

end ToyMtFramework.SerialTaskQueue
