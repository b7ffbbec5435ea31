import ToyMtFramework.SerialTaskQueueWakeup

/-! What `pause()` holds back. `pickNextTask` tests `m_pauseCount` once and pops steps later, so
a call of `pause` holds the queue unless it comes between the two. A thread past the test
stays past it, whatever happens to the count, until it has popped or given up. -/
namespace ToyMtFramework.SerialTaskQueue
open Transition

variable {ι γ : Type}

def Pick.mayPop : Pick → Bool
  | .claim | .tryPop | .release | .testEmpty | .reclaim | .retryPop => true
  | .loadPauseCount | .rerelease => false

def Call.mayPop : Call γ → Bool
  | .picking pc _ => pc.mayPop
  | .outside | .spawning _ => false

/-- A call of `pause` that takes the count from zero finds no thread that may still pop, and
the counter stays below its maximum. -/
def FindsNoPick (s : State ι γ) : Action ι γ → Prop
  | .pause _ => s.pauseCount < maxPauseCount ∧
    (s.pauseCount = 0 → ∀ j, (s.thread j).call.mayPop = false)
  | _ => True

instance {n : Nat} (s : State (Fin n) γ) : ∀ a, Decidable (FindsNoPick s a)
  | .pause _ => inferInstanceAs (Decidable (s.pauseCount < maxPauseCount ∧
    (s.pauseCount = 0 → ∀ j, (s.thread j).call.mayPop = false)))
  | .push _ _ | .resume _ | .start _ | .finishedTask _ | .advance _ => .isTrue trivial

/-- While some call of `pause` is unmatched the count says so, and nobody may pop. -/
structure Held (s : State ι γ) : Prop where
  count : s.pauseCount = s.unmatched
  bound : s.unmatched ≤ maxPauseCount
  picks : 0 < s.unmatched → ∀ j, (s.thread j).call.mayPop = false

section Steps
variable [DecidableEq ι]

theorem mayPop_update {s : State ι γ} {i : ι} {th : Thread γ}
    (picks : 0 < s.unmatched → ∀ j, (s.thread j).call.mayPop = false)
    (new : 0 < s.unmatched → th.call.mayPop = false) (held : 0 < s.unmatched) (j : ι) :
    (Function.update s.thread i th j).call.mayPop = false := by
  by_cases same : j = i
  · rw [same,Function.update_self]
    exact new held
  · rw [Function.update_of_ne same]
    exact picks held j

theorem Held.setThread {s : State ι γ} (held : Held s) (i : ι) {th : Thread γ}
    (new : 0 < s.unmatched → th.call.mayPop = false) : Held (s.setThread i th) :=
  ⟨held.count,held.bound,mayPop_update held.picks new⟩

omit [DecidableEq ι] in
/-- The queue and the claim do not matter to the pauses. -/
theorem Held.tasks {s : State ι γ} (held : Held s) (tasks : List (QueuedTask γ)) (taskChosen : Bool)
    (spawned : List (QueuedTask γ)) :
    Held {s with tasks := tasks, taskChosen := taskChosen, spawned := spawned} :=
  ⟨held.count,held.bound,held.picks⟩

variable [DecidableEq γ] {framework : Framework}

omit [DecidableEq ι] in
theorem receive_mayPop (running : Option (QueuedTask γ)) (task : QueuedTask γ) (caller : Caller γ) :
    (receive framework running task caller).call.mayPop = false := by
  cases caller with
  | spawner => rfl
  | runner group =>
    simp only [receive]
    split <;> rfl

theorem Held.advance {s t : State ι γ} (held : Held s) (i : ι)
    (taken : advance framework s i = some t) : Held t := by
  have own := fun paused => held.picks paused i
  rcases eq : s.thread i with ⟨running,call⟩
  rw [eq] at own
  simp only [SerialTaskQueue.advance,eq] at taken
  cases call with
  | outside => simp at taken
  | spawning task =>
    obtain rfl := Option.some.inj taken
    exact (held.setThread i fun _ => rfl).tasks _ _ _
  | picking pc caller =>
    cases pc with
    | loadPauseCount =>
      obtain rfl := Option.some.inj taken
      apply held.setThread i
      intro paused
      have nonzero : s.pauseCount ≠ 0 := by
        rw [held.count]
        exact Nat.ne_of_gt paused
      simp [nonzero,Call.mayPop]
    | claim =>
      obtain rfl := Option.some.inj taken
      have claimed : Held (s.setCall i (.picking .tryPop caller)) := held.setThread i own
      split
      · exact held.setThread i fun _ => rfl
      · exact claimed.tasks _ _ _
    | reclaim =>
      obtain rfl := Option.some.inj taken
      have claimed : Held (s.setCall i (.picking .retryPop caller)) := held.setThread i own
      split
      · exact held.setThread i fun _ => rfl
      · exact claimed.tasks _ _ _
    | tryPop =>
      obtain rfl := Option.some.inj taken
      split
      · exact held.setThread i own
      · exact (held.setThread i fun _ => receive_mayPop running _ caller).tasks _ _ _
    | retryPop =>
      obtain rfl := Option.some.inj taken
      split
      · exact held.setThread i fun _ => rfl
      · exact (held.setThread i fun _ => receive_mayPop running _ caller).tasks _ _ _
    | release =>
      obtain rfl := Option.some.inj taken
      have released : Held (s.setCall i (.picking .testEmpty caller)) := held.setThread i own
      exact released.tasks _ _ _
    | testEmpty =>
      obtain rfl := Option.some.inj taken
      apply held.setThread i
      intro paused
      have impossible := own paused
      simp [Call.mayPop,Pick.mayPop] at impossible
    | rerelease =>
      obtain rfl := Option.some.inj taken
      exact (held.setThread i fun _ => rfl).tasks _ _ _

theorem Held.next {s t : State ι γ} {a : Action ι γ} (held : Held s) (guarded : FindsNoPick s a)
    (taken : next framework s a = some t) : Held t := by
  cases a with
  | push i task =>
    simp only [SerialTaskQueue.next,Option.ite_none_right_eq_some,Option.some.injEq] at taken
    obtain ⟨_,rfl⟩ := taken
    exact (held.setThread i fun _ => rfl).tasks _ _ _
  | pause i =>
    simp only [SerialTaskQueue.next,Option.ite_none_right_eq_some,Option.some.injEq] at taken
    obtain ⟨_,rfl⟩ := taken
    obtain ⟨below,picks⟩ := guarded
    rw [held.count] at below picks
    refine ⟨?_,below,fun _ => ?_⟩
    · simp [increment,held.count,Nat.ne_of_lt below]
    · rcases Nat.eq_zero_or_pos s.unmatched with zero | positive
      · exact picks zero
      · exact held.picks positive
  | resume i =>
    simp only [SerialTaskQueue.next,Option.ite_none_right_eq_some,Option.some.injEq] at taken
    obtain ⟨⟨_,positive⟩,rfl⟩ := taken
    have resumed : Held {s with pauseCount := decrement s.pauseCount, unmatched := s.unmatched - 1} := by
      refine ⟨?_,Nat.le_trans (Nat.sub_le _ 1) held.bound,fun _ => held.picks positive⟩
      simp [decrement,held.count,Nat.ne_of_gt positive]
    split
    · exact resumed.setThread i fun _ => rfl
    · exact resumed
  | start i =>
    simp only [SerialTaskQueue.next] at taken
    split at taken
    · obtain rfl := Option.some.inj taken
      exact (held.setThread i fun _ => rfl).tasks _ _ _
    · simp at taken
  | finishedTask i =>
    simp only [SerialTaskQueue.next] at taken
    split at taken
    · obtain rfl := Option.some.inj taken
      exact (held.setThread i fun _ => rfl).tasks _ _ _
    · simp at taken
  | advance i => exact held.advance i taken

/-- Only a thread that may pop takes a task out of the queue. -/
theorem advance_tasks {s t : State ι γ} (i : ι) (held : (s.thread i).call.mayPop = false)
    (taken : advance framework s i = some t) : t.tasks = s.tasks := by
  rcases eq : s.thread i with ⟨running,call⟩
  rw [eq] at held
  simp only [advance,eq] at taken
  cases call with
  | outside => simp at taken
  | spawning task =>
    obtain rfl := Option.some.inj taken
    rfl
  | picking pc caller =>
    cases pc with
    | loadPauseCount | rerelease =>
      obtain rfl := Option.some.inj taken
      rfl
    | _ => simp [Call.mayPop,Pick.mayPop] at held

theorem Held.next_tasks {s t : State ι γ} {a : Action ι γ} (held : Held s) (paused : 0 < s.unmatched)
    (taken : SerialTaskQueue.next framework s a = some t) : s.tasks <+: t.tasks := by
  cases a with
  | push i task =>
    simp only [SerialTaskQueue.next,Option.ite_none_right_eq_some,Option.some.injEq] at taken
    obtain ⟨_,rfl⟩ := taken
    exact List.prefix_append s.tasks [task]
  | pause i =>
    simp only [SerialTaskQueue.next,Option.ite_none_right_eq_some,Option.some.injEq] at taken
    obtain ⟨_,rfl⟩ := taken
    exact List.prefix_refl _
  | resume i =>
    simp only [SerialTaskQueue.next,Option.ite_none_right_eq_some,Option.some.injEq] at taken
    obtain ⟨_,rfl⟩ := taken
    split <;> exact List.prefix_refl _
  | start i | finishedTask i =>
    simp only [SerialTaskQueue.next] at taken
    split at taken
    · obtain rfl := Option.some.inj taken
      exact List.prefix_refl _
    · simp at taken
  | advance i =>
    have same := advance_tasks i (held.picks paused i) taken
    exact same ▸ List.prefix_refl _

/-- Between a call of `pause` and the calls of `resume` that match it and all others, no step
takes a task out of the queue. -/
theorem pause_holds (framework : Framework) (s : State ι γ)
    (run : Reaches (next framework) FindsNoPick (initial ι γ) s) :
    s.pauseCount = s.unmatched ∧
    (0 < s.unmatched → ∀ (a : Action ι γ) (t : State ι γ), next framework s a = some t →
      s.tasks <+: t.tasks) := by
  have start : Held (initial ι γ) :=
    ⟨rfl,Nat.zero_le _,fun positive => absurd positive (Nat.lt_irrefl 0)⟩
  have held := run.invariant (fun _ _ _ held guarded taken => held.next guarded taken) start
  exact ⟨held.count,fun paused a t taken => held.next_tasks paused taken⟩

end Steps

def heldPush : List (Action (Fin 2) Unit) :=
  [.pause 0,.pause 1,.resume 0,.push 1 ⟨0,()⟩]

theorem pause_holds_push : ∃ s, execute (next .tbb) (initial (Fin 2) Unit) heldPush = some s ∧
    0 < s.unmatched ∧ s.tasks = [⟨0,()⟩] ∧ ∀ a t, next .tbb s a = some t → s.tasks <+: t.tasks := by
  refine ⟨_,rfl,by decide,rfl,?_⟩
  exact (pause_holds .tbb _ (execute_reaches heldPush (by decide) rfl)).2 (by decide)

/-- Thread 1 pauses the queue after thread 0 has found the count zero and before it pops. -/
def stalePick : List (Action (Fin 2) Unit) :=
  [.push 0 ⟨0,()⟩,.advance 0,.pause 1,.advance 0]

/-- Task 0 is popped after `pause` has returned. -/
theorem stalePick_pops : ∃ s t, Reachable (next .tbb) (initial (Fin 2) Unit) s ∧
    0 < s.unmatched ∧ next .tbb s (.advance 0) = some t ∧ s.tasks = [⟨0,()⟩] ∧ t.tasks = [] :=
  ⟨_,_,execute_reachable stalePick rfl,by decide,rfl,rfl,rfl⟩

end ToyMtFramework.SerialTaskQueue
