import ToyMtFramework.SerialTaskQueueWakeup

/-! The order in which a TBB `SerialTaskQueue` executes its tasks, and the groups it executes
them in. The machine of the queue is run with the loop of `spawn`, whose `g` is the group of
the run that the thread is in, and with a log of what has entered, left and been executed. -/
namespace ToyMtFramework.SerialTaskQueue
open Transition

variable {ι γ : Type}

structure Executed (γ : Type) where
  task : QueuedTask γ
  run : γ
  thrown : Bool
  deriving DecidableEq

structure Traced (ι γ : Type) where
  queue : State ι γ
  /-- The `g` of the run that a thread is in. -/
  run : ι → Option γ
  /-- From here on, what has happened so far. -/
  entered : List (QueuedTask γ)
  popped : List (QueuedTask γ)
  executed : List (Executed γ)

def Traced.initial (ι γ : Type) : Traced ι γ where
  queue := SerialTaskQueue.initial ι γ
  run := fun _ => none
  entered := []
  popped := []
  executed := []

section Machine
variable [DecidableEq ι] [DecidableEq γ]

def taken (queue after : State ι γ) : List (QueuedTask γ) :=
  queue.tasks.take (queue.tasks.length - after.tasks.length)

def action (thrown : Bool) : Except Unit Unit := if thrown then .error () else .ok ()

/-- The `catch(...)` swallows what `m_action` throws. -/
def QueuedTask.execute (m_action : Except Unit Unit) : Except Unit Unit :=
  tryCatch m_action fun _ => .ok ()

/-- One turn of the loop of `spawn`, up to the store of `finishedTask()`, which an exception that left
`execute()` would not come to. The loop goes on with the group of its run. -/
def Traced.finishedTask (s : Traced ι γ) (i : ι) (thrown : Bool) : Option (Traced ι γ) :=
  match (s.queue.thread i).running, s.run i, QueuedTask.execute (action thrown) with
  | some task, some g, .ok () => (next .tbb s.queue (.finishedTask i)).map fun queue =>
    {s with
      queue := queue.setCall i (.picking .loadPauseCount (.runner g))
      executed := s.executed ++ [⟨task,g,thrown⟩]}
  | _, _, _ => none

/-- A run starts in the group that the task was pushed with: `iTask.group()->run`. -/
def Traced.start (s : Traced ι γ) (i : ι) : Option (Traced ι γ) :=
  match s.queue.spawned with
  | task :: _ => (next .tbb s.queue (.start i)).map fun queue =>
    {s with queue, run := Function.update s.run i (some task.group)}
  | [] => none

/-- The second component says whether the body throws. A call of `resume` need not match a call
of `pause` here. -/
def Traced.next (s : Traced ι γ) : Action ι γ × Bool → Option (Traced ι γ)
  | (.push i task,_) => (SerialTaskQueue.next .tbb s.queue (.push i task)).map fun queue =>
    {s with queue, entered := s.entered ++ [task]}
  | (.pause i,_) => (SerialTaskQueue.next .tbb s.queue (.pause i)).map fun queue => {s with queue}
  | (.resume i,_) =>
    (SerialTaskQueue.next .tbb {s.queue with unmatched := s.queue.unmatched + 1} (.resume i)).map
      fun queue => {s with queue}
  | (.start i,_) => s.start i
  | (.finishedTask i,thrown) => s.finishedTask i thrown
  | (.advance i,_) => (SerialTaskQueue.next .tbb s.queue (.advance i)).map fun queue =>
    {s with queue, popped := s.popped ++ taken s.queue queue}

end Machine

/-- The task that a thread has popped and not finished. -/
def Thread.task (th : Thread γ) : Option (QueuedTask γ) :=
  match th.running, th.call with
  | some task, _ => some task
  | none, .spawning task => some task
  | none, _ => none

inductive InFlight (s : State ι γ) : List (QueuedTask γ) → Prop
  | none (spawned : s.spawned = []) (threads : ∀ j, (s.thread j).task = none) : InFlight s []
  | spawned (task : QueuedTask γ) (spawned : s.spawned = [task])
      (threads : ∀ j, (s.thread j).task = none) : InFlight s [task]
  | thread (i : ι) (task : QueuedTask γ) (spawned : s.spawned = [])
      (owner : (s.thread i).task = some task) (threads : ∀ j, j ≠ i → (s.thread j).task = none) :
      InFlight s [task]

def Thread.InRun (th : Thread γ) (run : Option γ) : Prop :=
  (∀ task, th.running = some task → run = some task.group) ∧
    ∀ pc group, th.call = .picking pc (.runner group) → run = some group

structure Ordered (s : Traced ι γ) : Prop where
  owned : Ownership s.queue
  entered : s.entered = s.popped ++ s.queue.tasks
  popped : ∃ flight, InFlight s.queue flight ∧ s.popped = s.executed.map Executed.task ++ flight
  runs : ∀ i, (s.queue.thread i).InRun (s.run i)
  executed : ∀ x ∈ s.executed, x.run = x.task.group

theorem execute_returns (m_action : Except Unit Unit) : QueuedTask.execute m_action = .ok () := by
  cases m_action <;> rfl

theorem Thread.task_of_claims {th : Thread γ} (free : th.claims = 0) : th.task = none := by
  rcases th with ⟨running,call⟩
  cases running with
  | some task => simp [Thread.claims] at free
  | none => cases call <;> simp [Thread.claims,Call.claims] at free <;> rfl

theorem InFlight.unique {s : State ι γ} {first second : List (QueuedTask γ)} (one : InFlight s first)
    (other : InFlight s second) : first = second := by
  cases one with
  | none empty threads =>
    cases other with
    | none => rfl
    | spawned task one => simp [empty] at one
    | thread i task _ owner => simp [threads i] at owner
  | spawned task one threads =>
    cases other with
    | none empty => simp [empty] at one
    | spawned other two => exact one.symm.trans two
    | thread i task empty => simp [empty] at one
  | thread i task empty owner threads =>
    cases other with
    | none _ free => simp [free i] at owner
    | spawned other two => simp [empty] at two
    | thread j other _ second =>
      by_cases same : j = i
      · subst j
        rw [owner] at second
        simpa using second
      · simp [threads j same] at second

/-- The thread that answers for the claim has the task in flight. -/
theorem Ownership.inFlight {s : State ι γ} (owned : Ownership s) {i : ι}
    (one : (s.thread i).claims = 1) : InFlight s (s.thread i).task.toList ∧ s.spawned = [] ∧
      ∀ j, j ≠ i → (s.thread j).task = none := by
  cases owned with
  | free _ _ threads => simp [threads i] at one
  | pending _ _ _ threads => simp [threads i] at one
  | held k _ empty owner threads =>
    have same : i = k := by
      by_contra other
      simp [threads i other] at one
    subst k
    have others (j : ι) (other : j ≠ i) : (s.thread j).task = none :=
      Thread.task_of_claims (threads j other)
    refine ⟨?_,empty,others⟩
    cases own : (s.thread i).task with
    | none =>
      apply InFlight.none empty
      intro j
      by_cases same : j = i
      · rw [same,own]
      · exact others j same
    | some task => exact .thread i task empty own others

section Steps
variable [DecidableEq ι]

theorem InFlight.update {s t : State ι γ} {flight : List (QueuedTask γ)} (inFlight : InFlight s flight)
    {i : ι} {th : Thread γ} (thread : t.thread = Function.update s.thread i th)
    (same : th.task = (s.thread i).task) (spawned : t.spawned = s.spawned) : InFlight t flight := by
  have each (j : ι) : (t.thread j).task = (s.thread j).task := by
    rw [thread]
    by_cases own : j = i
    · rw [own,Function.update_self,same]
    · rw [Function.update_of_ne own]
  cases inFlight with
  | none empty threads => exact .none (spawned.trans empty) fun j => (each j).trans (threads j)
  | spawned task one threads =>
    exact .spawned task (spawned.trans one) fun j => (each j).trans (threads j)
  | thread k task empty owner threads =>
    exact .thread k task (spawned.trans empty) ((each k).trans owner)
      fun j other => (each j).trans (threads j other)

theorem tasks_update {s : State ι γ} {i : ι} {th : Thread γ}
    (others : ∀ j, j ≠ i → (s.thread j).task = none) (own : th.task = none) (j : ι) :
    (Function.update s.thread i th j).task = none := by
  by_cases same : j = i
  · rw [same,Function.update_self,own]
  · rw [Function.update_of_ne same,others j same]

variable [DecidableEq γ]

omit [DecidableEq ι] in
theorem receive_task (task : QueuedTask γ) (caller : Caller γ) :
    (receive .tbb none task caller).task = some task := by
  cases caller with
  | spawner => rfl
  | runner group =>
    simp only [receive]
    split <;> rfl

omit [DecidableEq ι] [DecidableEq γ] in
theorem taken_same {s t : State ι γ} (tasks : t.tasks = s.tasks) : taken s t = [] := by
  simp [taken,tasks]

omit [DecidableEq ι] [DecidableEq γ] in
theorem taken_cons {s t : State ι γ} {task : QueuedTask γ} (tasks : s.tasks = task :: t.tasks) :
    taken s t = [task] := by
  simp [taken,tasks]

inductive Advances (s : State ι γ) (i : ι) : State ι γ → Prop
  | spawn (running : Option (QueuedTask γ)) (task : QueuedTask γ)
      (before : s.thread i = ⟨running,.spawning task⟩) :
      Advances s i {s.setThread i ⟨running,.outside⟩ with spawned := s.spawned ++ [task]}
  | move (running : Option (QueuedTask γ)) (pc : Pick) (caller : Caller γ) (call : Call γ)
      (taskChosen : Bool) (before : s.thread i = ⟨running,.picking pc caller⟩)
      (after : call = .outside ∨ ∃ next, call = .picking next caller) :
      Advances s i {s.setThread i ⟨running,call⟩ with taskChosen}
  | pop (running : Option (QueuedTask γ)) (pc : Pick) (caller : Caller γ) (task : QueuedTask γ)
      (rest : List (QueuedTask γ)) (before : s.thread i = ⟨running,.picking pc caller⟩)
      (holding : pc.claims = 1) (waiting : s.tasks = task :: rest) :
      Advances s i {s.setThread i (receive .tbb running task caller) with tasks := rest}

theorem advance_advances {s t : State ι γ} {i : ι} (moved : advance .tbb s i = some t) :
    Advances s i t := by
  rcases eq : s.thread i with ⟨running,call⟩
  have setCall (call : Call γ) : s.setCall i call = s.setThread i ⟨running,call⟩ := by
    simp [State.setCall,eq]
  cases call with
  | outside => simp [advance,eq] at moved
  | spawning task =>
    simp only [advance,eq,Option.some.injEq,setCall] at moved
    subst t
    exact .spawn running task eq
  | picking pc caller =>
    have moves (call : Call γ) (taskChosen : Bool)
        (after : call = .outside ∨ ∃ next, call = .picking next caller) :=
      Advances.move running pc caller call taskChosen eq after
    cases pc with
    | loadPauseCount | testEmpty =>
      simp only [advance,eq,Option.some.injEq,setCall] at moved
      subst t
      apply moves _ s.taskChosen
      split <;> simp
    | claim | reclaim =>
      simp only [advance,eq,Option.some.injEq,setCall] at moved
      subst t
      split
      · exact moves .outside s.taskChosen (Or.inl rfl)
      · exact moves _ true (Or.inr ⟨_,rfl⟩)
    | release =>
      simp only [advance,eq,Option.some.injEq,setCall] at moved
      subst t
      exact moves _ false (Or.inr ⟨_,rfl⟩)
    | rerelease =>
      simp only [advance,eq,Option.some.injEq,setCall] at moved
      subst t
      exact moves _ false (Or.inl rfl)
    | tryPop | retryPop =>
      simp only [advance,eq,Option.some.injEq,setCall] at moved
      subst t
      split
      · exact moves _ s.taskChosen (Or.inr ⟨_,rfl⟩)
      · rename_i task rest waiting
        exact .pop running _ caller task rest eq rfl waiting

omit [DecidableEq ι] [DecidableEq γ] in
/-- A thread that answers for a claim in a call runs no task besides. -/
theorem Ownership.unemployed {s : State ι γ} (owned : Ownership s) {i : ι}
    {running : Option (QueuedTask γ)} {call : Call γ} (before : s.thread i = ⟨running,call⟩)
    (claims : call.claims = 1) : running = none ∧ (s.thread i).claims = 1 := by
  have single := owned.single i
  rw [before] at single ⊢
  cases running with
  | none => exact ⟨rfl,by simp [Thread.claims,claims]⟩
  | some task => simp [Thread.claims,claims] at single

/-- A step inside a queue operation leaves the task in flight alone, or pops one when there is none. -/
theorem advance_inFlight {s t : State ι γ} {flight : List (QueuedTask γ)} (owned : Ownership s)
    (inFlight : InFlight s flight) {i : ι} (advances : Advances s i t) :
    (t.tasks = s.tasks ∧ InFlight t flight) ∨
      ∃ task, s.tasks = task :: t.tasks ∧ flight = [] ∧ InFlight t [task] := by
  cases advances with
  | spawn running task before =>
    obtain ⟨rfl,one⟩ := owned.unemployed before rfl
    obtain ⟨here,empty,others⟩ := owned.inFlight one
    have only : flight = [task] := by
      rw [inFlight.unique here,before]
      rfl
    refine Or.inl ⟨rfl,?_⟩
    rw [only]
    apply InFlight.spawned task
    · simp [empty]
    · exact tasks_update others rfl
  | move running pc caller call taskChosen before after =>
    refine Or.inl ⟨rfl,inFlight.update rfl ?_ rfl⟩
    rw [before]
    rcases after with rfl | ⟨next,rfl⟩ <;> cases running <;> rfl
  | pop running pc caller task rest before holding waiting =>
    obtain ⟨rfl,one⟩ := owned.unemployed before holding
    obtain ⟨here,empty,others⟩ := owned.inFlight one
    have nothing : flight = [] := by
      rw [inFlight.unique here,before]
      rfl
    refine Or.inr ⟨task,waiting,nothing,.thread i task empty ?_ ?_⟩
    · simp [State.setThread,receive_task]
    · intro j other
      simp [State.setThread,Function.update_of_ne other,others j other]

omit [DecidableEq γ] in
theorem inRun_update {s : State ι γ} {run : ι → Option γ} (runs : ∀ j, (s.thread j).InRun (run j))
    {i : ι} {th : Thread γ} (own : th.InRun (run i)) (j : ι) :
    (Function.update s.thread i th j).InRun (run j) := by
  by_cases same : j = i
  · rw [same,Function.update_self]
    exact own
  · rw [Function.update_of_ne same]
    exact runs j

/-- The loop of `spawn` goes on with a task only if it is of the group of its run. -/
theorem advance_inRun {s t : State ι γ} {i : ι} {run : ι → Option γ}
    (runs : ∀ j, (s.thread j).InRun (run j)) (advances : Advances s i t) (j : ι) :
    (t.thread j).InRun (run j) := by
  have own := runs i
  cases advances with
  | spawn running task before =>
    rw [before] at own
    have leaves : (Thread.mk running .outside).InRun (run i) := ⟨own.1,by simp⟩
    exact inRun_update runs leaves j
  | move running pc caller call taskChosen before after =>
    rw [before] at own
    apply inRun_update runs
    refine ⟨own.1,fun pc' group at_pc => ?_⟩
    rcases after with rfl | ⟨next,rfl⟩ <;> cases at_pc
    exact own.2 pc group rfl
  | pop running pc caller task rest before holding waiting =>
    rw [before] at own
    apply inRun_update runs
    cases caller with
    | spawner => exact ⟨own.1,by simp [receive]⟩
    | runner group =>
      simp only [receive,true_and]
      split
      · rename_i same
        refine ⟨fun other kept => ?_,by simp⟩
        cases kept
        rw [same]
        exact own.2 pc group rfl
      · exact ⟨own.1,by simp⟩

omit [DecidableEq ι] [DecidableEq γ] in
theorem call_task {th : Thread γ} {call : Call γ} (before : th.call = .outside)
    (after : ∀ task, call ≠ .spawning task) : (Thread.mk th.running call).task = th.task := by
  rcases th with ⟨running,old⟩
  obtain rfl : old = .outside := before
  cases running with
  | some task => rfl
  | none =>
    cases call with
    | spawning task => exact absurd rfl (after task)
    | outside | picking => rfl

omit [DecidableEq ι] [DecidableEq γ] in
theorem call_inRun {th : Thread γ} {run : Option γ} (inRun : th.InRun run) :
    (Thread.mk th.running (.picking .loadPauseCount .spawner)).InRun run :=
  ⟨inRun.1,by simp⟩

theorem Ordered.push {s t : Traced ι γ} (ordered : Ordered s) (i : ι) (task : QueuedTask γ) (thrown : Bool)
    (moved : s.next (.push i task,thrown) = some t) : Ordered t := by
  obtain ⟨queue,pushed,rfl⟩ := Option.map_eq_some_iff.mp moved
  have owned := ordered.owned.next pushed
  obtain ⟨flight,inFlight,popped⟩ := ordered.popped
  simp only [SerialTaskQueue.next,Option.ite_none_right_eq_some,Option.some.injEq] at pushed
  obtain ⟨outside,rfl⟩ := pushed
  refine ⟨owned,?_,⟨flight,?_,popped⟩,?_,ordered.executed⟩
  · simp [ordered.entered]
  · exact inFlight.update rfl (call_task outside (by simp)) rfl
  · exact inRun_update ordered.runs (call_inRun (ordered.runs i))

theorem Ordered.pause {s t : Traced ι γ} (ordered : Ordered s) (i : ι) (thrown : Bool)
    (moved : s.next (.pause i,thrown) = some t) : Ordered t := by
  obtain ⟨queue,paused,rfl⟩ := Option.map_eq_some_iff.mp moved
  have owned := ordered.owned.next paused
  obtain ⟨flight,inFlight,popped⟩ := ordered.popped
  simp only [SerialTaskQueue.next,Option.ite_none_right_eq_some,Option.some.injEq] at paused
  obtain ⟨_,rfl⟩ := paused
  have same : s.queue.thread = Function.update s.queue.thread i (s.queue.thread i) := by simp
  exact ⟨owned,ordered.entered,⟨flight,inFlight.update same rfl rfl,popped⟩,ordered.runs,ordered.executed⟩

omit [DecidableEq ι] [DecidableEq γ] in
/-- How many calls of `pause` are unmatched does not matter to the claim. -/
theorem Ownership.unmatched {s : State ι γ} (owned : Ownership s) (n : Nat) :
    Ownership {s with unmatched := n} := by
  cases owned with
  | free unset empty threads => exact .free unset empty threads
  | pending task set one threads => exact .pending task set one threads
  | held i set empty owner threads => exact .held i set empty owner threads

theorem Ordered.resume {s t : Traced ι γ} (ordered : Ordered s) (i : ι) (thrown : Bool)
    (moved : s.next (.resume i,thrown) = some t) : Ordered t := by
  obtain ⟨queue,resumed,rfl⟩ := Option.map_eq_some_iff.mp moved
  have owned := (ordered.owned.unmatched (s.queue.unmatched + 1)).next resumed
  obtain ⟨flight,inFlight,popped⟩ := ordered.popped
  simp only [SerialTaskQueue.next,Option.ite_none_right_eq_some,Option.some.injEq] at resumed
  obtain ⟨⟨outside,_⟩,same⟩ := resumed
  split at same
  · subst queue
    refine ⟨owned,ordered.entered,⟨flight,?_,popped⟩,?_,ordered.executed⟩
    · exact inFlight.update rfl (call_task outside (by simp)) rfl
    · exact inRun_update ordered.runs (call_inRun (ordered.runs i))
  · subst queue
    have same : s.queue.thread = Function.update s.queue.thread i (s.queue.thread i) := by simp
    exact ⟨owned,ordered.entered,⟨flight,inFlight.update same rfl rfl,popped⟩,ordered.runs,ordered.executed⟩

/-- A spawned task is started in a run of its own group. -/
theorem Ordered.start {s t : Traced ι γ} (ordered : Ordered s) (i : ι)
    (moved : s.start i = some t) : Ordered t := by
  unfold Traced.start at moved
  split at moved
  · rename_i task rest spawned
    obtain ⟨queue,started,rfl⟩ := Option.map_eq_some_iff.mp moved
    have owned := ordered.owned.next started
    obtain ⟨flight,inFlight,popped⟩ := ordered.popped
    simp only [SerialTaskQueue.next,spawned] at started
    split at started
    · rename_i other more same idle
      obtain ⟨rfl,rfl⟩ := List.cons.inj same
      obtain rfl := Option.some.inj started
      have only : flight = [task] ∧ rest = [] := by
        cases inFlight with
        | none empty => simp [empty] at spawned
        | spawned other one => simp_all
        | thread _ _ empty => simp [empty] at spawned
      obtain ⟨rfl,rfl⟩ := only
      refine ⟨owned,ordered.entered,⟨[task],?_,popped⟩,?_,ordered.executed⟩
      · cases inFlight with
        | spawned _ _ threads =>
          apply InFlight.thread i task rfl
          · simp [State.setThread,Thread.task]
          · intro j other
            simp [State.setThread,Function.update_of_ne other,threads j]
        | thread _ _ empty => simp [empty] at spawned
      · intro j
        by_cases same : j = i
        · subst j
          simp [State.setThread,Thread.InRun]
        · simpa [State.setThread,Function.update_of_ne same] using ordered.runs j
    · simp at started
  · simp at moved

/-- A task is over with the store to `m_taskChosen`, whether its body has thrown or not. -/
theorem Ordered.finishedTask {s t : Traced ι γ} (ordered : Ordered s) (i : ι) (thrown : Bool)
    (moved : s.finishedTask i thrown = some t) : Ordered t := by
  unfold Traced.finishedTask at moved
  rw [execute_returns] at moved
  split at moved
  · rename_i task g running inRun _
    obtain ⟨queue,finished,rfl⟩ := Option.map_eq_some_iff.mp moved
    have owned := ordered.owned.next finished
    obtain ⟨flight,inFlight,popped⟩ := ordered.popped
    have own := ordered.runs i
    rcases eq : s.queue.thread i with ⟨now,call⟩
    rw [eq] at running own
    obtain rfl : now = some task := running
    have group : g = task.group := by
      have started := own.1 task rfl
      rw [inRun] at started
      exact Option.some.inj started
    subst g
    simp only [SerialTaskQueue.next,eq] at finished
    split at finished
    · rename_i other same
      cases same
      obtain rfl := Option.some.inj finished
      have one : (s.queue.thread i).claims = 1 := by simp [eq,Thread.claims,Call.claims]
      obtain ⟨here,empty,others⟩ := ordered.owned.inFlight one
      obtain rfl : flight = [task] := by
        rw [inFlight.unique here,eq]
        rfl
      have still : ({s.queue.setThread i ⟨none,.picking .loadPauseCount (.runner task.group)⟩ with
          taskChosen := false} : State ι γ).setCall i (.picking .loadPauseCount (.runner task.group)) =
          {s.queue.setThread i ⟨none,.picking .loadPauseCount (.runner task.group)⟩ with
            taskChosen := false} := by
        simp [State.setCall,State.setThread]
      rw [still]
      refine ⟨owned,ordered.entered,⟨[],?_,?_⟩,?_,?_⟩
      · exact .none empty (tasks_update others rfl)
      · simp [popped]
      · apply inRun_update ordered.runs
        refine ⟨by simp,fun pc group at_pc => ?_⟩
        cases at_pc
        exact inRun
      · intro x member
        rcases List.mem_append.mp member with old | new
        · exact ordered.executed x old
        · obtain rfl := List.mem_singleton.mp new
          rfl
    · simp at finished
  · simp at moved

theorem Ordered.advance {s t : Traced ι γ} (ordered : Ordered s) (i : ι) (thrown : Bool)
    (moved : s.next (.advance i,thrown) = some t) : Ordered t := by
  obtain ⟨queue,advanced,rfl⟩ := Option.map_eq_some_iff.mp moved
  have owned := ordered.owned.next advanced
  have advances := advance_advances advanced
  obtain ⟨flight,inFlight,popped⟩ := ordered.popped
  have runs := advance_inRun ordered.runs advances
  rcases advance_inFlight ordered.owned inFlight advances with ⟨tasks,still⟩ | ⟨task,tasks,rfl,gone⟩
  · refine ⟨owned,?_,⟨flight,still,?_⟩,runs,ordered.executed⟩
    · simp [taken_same tasks,ordered.entered,tasks]
    · simp [taken_same tasks,popped]
  · refine ⟨owned,?_,⟨[task],gone,?_⟩,runs,ordered.executed⟩
    · simp [taken_cons tasks,ordered.entered,tasks]
    · simp [taken_cons tasks,popped]

theorem Ordered.next {s t : Traced ι γ} {a : Action ι γ × Bool} (ordered : Ordered s)
    (moved : s.next a = some t) : Ordered t := by
  obtain ⟨a,thrown⟩ := a
  cases a with
  | push i task => exact ordered.push i task thrown moved
  | pause i => exact ordered.pause i thrown moved
  | resume i => exact ordered.resume i thrown moved
  | start i => exact ordered.start i moved
  | finishedTask i => exact ordered.finishedTask i thrown moved
  | advance i => exact ordered.advance i thrown moved

omit [DecidableEq ι] [DecidableEq γ] in
theorem initial_ordered : Ordered (Traced.initial ι γ) :=
  ⟨initial_ownership,rfl,⟨[],.none rfl fun _ => rfl,rfl⟩,fun _ => ⟨by simp [Traced.initial,initial],by simp [Traced.initial,initial]⟩,
    by simp [Traced.initial]⟩

/-- At most one task is between being popped and the store of `finishedTask`; the tasks are
executed in the order in which they have entered, each in a run of the group it was pushed with;
and whether a body throws makes no difference to what can happen next. -/
theorem tasks_executed_in_order (s : Traced ι γ)
    (run : Reachable Traced.next (Traced.initial ι γ) s) :
    (∃ flight, InFlight s.queue flight ∧ flight.length ≤ 1 ∧
      s.entered = s.executed.map Executed.task ++ flight ++ s.queue.tasks) ∧
    s.executed.map Executed.task <+: s.entered ∧
    (∀ x ∈ s.executed, x.run = x.task.group) ∧
    ∀ i, (s.next (.finishedTask i,true)).map Traced.queue = (s.next (.finishedTask i,false)).map Traced.queue := by
  have ordered := run.invariant (fun _ _ _ ordered _ moved => ordered.next moved) initial_ordered
  obtain ⟨flight,inFlight,popped⟩ := ordered.popped
  have entered : s.entered = s.executed.map Executed.task ++ flight ++ s.queue.tasks := by
    rw [ordered.entered,popped]
  refine ⟨⟨flight,inFlight,?_,entered⟩,?_,ordered.executed,fun i => ?_⟩
  · cases inFlight <;> simp
  · rw [entered,List.append_assoc]
    exact List.prefix_append _ _
  · simp only [Traced.next,Traced.finishedTask,execute_returns]
    split
    · simp only [Option.map_map]
      rfl
    · rfl

end Steps

/-- Two groups: the run of task 0 goes on with task 1, whose body throws, and hands task 2, which
is of another group, to that group. -/
def handedOver : List (Action (Fin 2) Nat × Bool) :=
  [(.push 0 ⟨0,0⟩,false),(.advance 0,false),(.advance 0,false),(.advance 0,false),(.advance 0,false),
    (.push 0 ⟨1,0⟩,false),(.advance 0,false),(.advance 0,false),(.push 1 ⟨2,1⟩,false),(.advance 1,false),
    (.advance 1,false),(.start 0,false),(.finishedTask 0,false),(.advance 0,false),(.advance 0,false),
    (.advance 0,false),(.finishedTask 0,true),(.advance 0,false),(.advance 0,false),(.advance 0,false),
    (.advance 0,false),(.start 1,false),(.finishedTask 1,false)]

theorem tasks_executed_in_order_handedOver :
    ∃ s, execute Traced.next (Traced.initial (Fin 2) Nat) handedOver = some s ∧
      s.executed = [⟨⟨0,0⟩,0,false⟩,⟨⟨1,0⟩,0,true⟩,⟨⟨2,1⟩,1,false⟩] ∧
      s.executed.map Executed.task <+: s.entered := by
  refine ⟨_,rfl,rfl,?_⟩
  exact (tasks_executed_in_order _ (execute_reachable handedOver rfl)).2.1

end ToyMtFramework.SerialTaskQueue
