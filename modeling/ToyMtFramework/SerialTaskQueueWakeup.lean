import ToyMtFramework.SerialTaskQueue
import Mathlib.Tactic.Push

/-! When a `SerialTaskQueue` can strand a task.
The claim `m_taskChosen` has at most one owner at any time. A refused claim is
harmless because its owner looks at the queue again, except in the second round
of `pickNextTask`, whose release is not followed by another look. -/
namespace ToyMtFramework.SerialTaskQueue
open Transition

variable {ι γ : Type}

def Pick.claims : Pick → Nat
  | .tryPop | .release | .retryPop | .rerelease => 1
  | .loadPauseCount | .claim | .testEmpty | .reclaim => 0

def Call.claims : Call γ → Nat
  | .outside => 0
  | .picking pc _ => pc.claims
  | .spawning _ => 1

def Thread.claims (th : Thread γ) : Nat :=
  (if th.running.isSome then 1 else 0) + th.call.claims

def Thread.Idle (th : Thread γ) : Prop :=
  th.running = none ∧ th.call = .outside

/-- `m_taskChosen` is set exactly when one task or one pick answers for it. -/
inductive Ownership (s : State ι γ) : Prop
  | free (unset : s.taskChosen = false) (spawned : s.spawned = [])
      (threads : ∀ j, (s.thread j).claims = 0)
  | pending (task : QueuedTask γ) (set : s.taskChosen = true) (spawned : s.spawned = [task])
      (threads : ∀ j, (s.thread j).claims = 0)
  | held (i : ι) (set : s.taskChosen = true) (spawned : s.spawned = [])
      (owner : (s.thread i).claims = 1) (threads : ∀ j, j ≠ i → (s.thread j).claims = 0)

section Steps
variable [DecidableEq ι]

inductive ClaimEffect (s t : State ι γ) : Prop
  | keep (i : ι) (th : Thread γ) (thread : t.thread = Function.update s.thread i th)
      (claims : th.claims = (s.thread i).claims)
      (chosen : t.taskChosen = s.taskChosen) (spawned : t.spawned = s.spawned)
  | take (i : ι) (th : Thread γ) (thread : t.thread = Function.update s.thread i th)
      (claims : th.claims = (s.thread i).claims + 1)
      (unset : s.taskChosen = false) (set : t.taskChosen = true) (spawned : t.spawned = s.spawned)
  | drop (i : ι) (th : Thread γ) (thread : t.thread = Function.update s.thread i th)
      (claims : th.claims + 1 = (s.thread i).claims)
      (unset : t.taskChosen = false) (spawned : t.spawned = s.spawned)
  | spawn (i : ι) (th : Thread γ) (thread : t.thread = Function.update s.thread i th)
      (claims : th.claims + 1 = (s.thread i).claims) (chosen : t.taskChosen = s.taskChosen)
      (task : QueuedTask γ) (spawned : t.spawned = s.spawned ++ [task])
  | start (i : ι) (th : Thread γ) (thread : t.thread = Function.update s.thread i th)
      (claims : th.claims = (s.thread i).claims + 1) (chosen : t.taskChosen = s.taskChosen)
      (task : QueuedTask γ) (spawned : s.spawned = task :: t.spawned)

theorem receive_claims [DecidableEq γ] (framework : Framework) (running : Option (QueuedTask γ)) (task : QueuedTask γ) (pc : Pick)
    (holding : pc.claims = 1) (caller : Caller γ)
    (single : (Thread.mk running (.picking pc caller)).claims ≤ 1) :
    (receive framework running task caller).claims = 1 := by
  have unemployed : running = none := by
    cases running with
    | none => rfl
    | some task => simp [Thread.claims,Call.claims,holding] at single
  subst unemployed
  cases caller with
  | spawner => simp [receive,Thread.claims,Call.claims]
  | runner group =>
    by_cases kept : framework = .tbb ∧ task.group = group <;>
      simp [receive,kept,Thread.claims,Call.claims]

omit [DecidableEq ι] in
theorem Ownership.single {s : State ι γ} (owned : Ownership s) (j : ι) :
    (s.thread j).claims ≤ 1 := by
  cases owned with
  | free _ _ threads => simp [threads j]
  | pending _ _ _ threads => simp [threads j]
  | held i _ _ owner threads =>
    by_cases same : j = i
    · subst j; omega
    · simp [threads j same]

theorem others_update {s : State ι γ} {i : ι} {th : Thread γ} (j : ι)
    (others : ∀ j, j ≠ i → (s.thread j).claims = 0) (new : th.claims = 0) :
    (Function.update s.thread i th j).claims = 0 := by
  by_cases same : j = i
  · rw [same,Function.update_self,new]
  · rw [Function.update_of_ne same,others j same]

theorem Ownership.keep {s t : State ι γ} (owned : Ownership s) {i : ι} {th : Thread γ}
    (thread : t.thread = Function.update s.thread i th) (claims : th.claims = (s.thread i).claims)
    (chosen : t.taskChosen = s.taskChosen) (spawned : t.spawned = s.spawned) : Ownership t := by
  have each (j : ι) : (t.thread j).claims = (s.thread j).claims := by
    rw [thread]
    by_cases same : j = i
    · rw [same,Function.update_self,claims]
    · rw [Function.update_of_ne same]
  cases owned with
  | free unset empty threads =>
    exact .free (chosen.trans unset) (spawned.trans empty) fun j => (each j).trans (threads j)
  | pending task set one threads =>
    exact .pending task (chosen.trans set) (spawned.trans one) fun j => (each j).trans (threads j)
  | held k set empty owner threads =>
    exact .held k (chosen.trans set) (spawned.trans empty) ((each k).trans owner)
      fun j other => (each j).trans (threads j other)

theorem Ownership.effect {s t : State ι γ} (owned : Ownership s) (effect : ClaimEffect s t) :
    Ownership t := by
  cases effect with
  | keep i th thread claims chosen spawned => exact owned.keep thread claims chosen spawned
  | take i th thread claims unset set spawned =>
    cases owned with
    | free _ empty threads =>
      rw [threads i] at claims
      refine .held i set (spawned.trans empty) ?_ ?_
      · rw [thread,Function.update_self,claims]
      · intro j other
        rw [thread,Function.update_of_ne other,threads j]
    | pending _ set' => simp [unset] at set'
    | held _ set' => simp [unset] at set'
  | drop i th thread claims unset spawned =>
    cases owned with
    | free _ _ threads => simp [threads i] at claims
    | pending _ _ _ threads => simp [threads i] at claims
    | held k _ empty owner threads =>
      have same : k = i := by
        by_contra other
        rw [threads i (Ne.symm other)] at claims
        omega
      subst k
      refine .free unset (spawned.trans empty) fun j => ?_
      rw [thread]
      exact others_update j threads (by omega)
  | spawn i th thread claims chosen task spawned =>
    cases owned with
    | free _ _ threads => simp [threads i] at claims
    | pending _ _ _ threads => simp [threads i] at claims
    | held k set empty owner threads =>
      have same : k = i := by
        by_contra other
        rw [threads i (Ne.symm other)] at claims
        omega
      subst k
      refine .pending task (chosen.trans set) (by rw [spawned,empty]; rfl) fun j => ?_
      rw [thread]
      exact others_update j threads (by omega)
  | start i th thread claims chosen task spawned =>
    cases owned with
    | free _ empty => simp [empty] at spawned
    | pending _ set one threads =>
      rw [threads i] at claims
      have rest : t.spawned = [] := (List.cons.inj (one.symm.trans spawned)).2.symm
      refine .held i (chosen.trans set) rest ?_ ?_
      · rw [thread,Function.update_self,claims]
      · intro j other
        rw [thread,Function.update_of_ne other,threads j]
    | held _ _ empty => simp [empty] at spawned

variable [DecidableEq γ] {framework : Framework}

theorem advance_effect {s t : State ι γ} (owned : Ownership s) (i : ι)
    (taken : advance framework s i = some t) : ClaimEffect s t := by
  have single := owned.single i
  rcases eq : s.thread i with ⟨running,call⟩
  simp only [advance,eq] at taken
  cases call with
  | outside => simp at taken
  | spawning task =>
    obtain rfl := Option.some.inj taken
    exact .spawn i ⟨running,.outside⟩ (by simp [State.setCall,State.setThread,eq])
      (by simp [eq,Thread.claims,Call.claims]) rfl task rfl
  | picking pc caller =>
    cases pc with
    | loadPauseCount =>
      obtain rfl := Option.some.inj taken
      refine .keep i _ rfl ?_ rfl rfl
      split <;> simp [eq,Thread.claims,Call.claims,Pick.claims]
    | testEmpty =>
      obtain rfl := Option.some.inj taken
      refine .keep i _ rfl ?_ rfl rfl
      split <;> simp [eq,Thread.claims,Call.claims,Pick.claims]
    | claim | reclaim =>
      simp only [Option.some.injEq] at taken
      subst t
      split
      · exact .keep i _ rfl (by simp [eq,Thread.claims,Call.claims,Pick.claims]) rfl rfl
      · rename_i unset
        exact .take i _ rfl (by simp [eq,Thread.claims,Call.claims,Pick.claims])
          (by simpa using unset) rfl rfl
    | tryPop | retryPop =>
      simp only [Option.some.injEq] at taken
      subst t
      split
      · exact .keep i _ rfl (by simp [eq,Thread.claims,Call.claims,Pick.claims]) rfl rfl
      · refine .keep i _ rfl ?_ rfl rfl
        rw [eq] at single ⊢
        rw [receive_claims framework running _ _ rfl caller single]
        exact Nat.le_antisymm (Nat.le_add_left 1 _) single
    | release | rerelease =>
      obtain rfl := Option.some.inj taken
      exact .drop i _ rfl (by simp [eq,Thread.claims,Call.claims,Pick.claims]) rfl rfl

/-- Every step of the machine has one of the five effects on the claim. -/
theorem next_effect {s t : State ι γ} {a : Action ι γ} (owned : Ownership s)
    (taken : next framework s a = some t) : ClaimEffect s t := by
  cases a with
  | push i task =>
    simp only [next,Option.ite_none_right_eq_some,Option.some.injEq] at taken
    obtain ⟨outside,rfl⟩ := taken
    exact .keep i _ rfl (by simp [Thread.claims,Call.claims,Pick.claims,outside]) rfl rfl
  | pause i =>
    simp only [next,Option.ite_none_right_eq_some,Option.some.injEq] at taken
    obtain ⟨_,rfl⟩ := taken
    exact .keep i (s.thread i) (by simp) rfl rfl rfl
  | resume i =>
    simp only [next,Option.ite_none_right_eq_some,Option.some.injEq] at taken
    obtain ⟨⟨outside,_⟩,rfl⟩ := taken
    split
    · exact .keep i _ rfl (by simp [Thread.claims,Call.claims,Pick.claims,outside]) rfl rfl
    · exact .keep i (s.thread i) (by simp) rfl rfl rfl
  | start i =>
    simp only [next] at taken
    split at taken
    · rename_i task rest spawned idle
      obtain rfl := Option.some.inj taken
      exact .start i _ rfl (by simp [idle,Thread.claims,Call.claims]) rfl task spawned
    · simp at taken
  | finishedTask i =>
    simp only [next] at taken
    split at taken
    · rename_i task running
      obtain rfl := Option.some.inj taken
      exact .drop i _ rfl (by simp [running,Thread.claims,Call.claims,Pick.claims]) rfl rfl
    · simp at taken
  | advance i => exact advance_effect owned i taken

theorem Ownership.next {s t : State ι γ} {a : Action ι γ} (owned : Ownership s)
    (taken : next framework s a = some t) : Ownership t :=
  owned.effect (next_effect owned taken)

end Steps

def Quiet (s : State ι γ) : Prop :=
  s.spawned = [] ∧ ∀ i, (s.thread i).Idle

/-- Somebody will still look at the queue, or the queue needs no one. -/
def Wakeful (s : State ι γ) : Prop :=
  s.tasks ≠ [] → s.pauseCount = 0 → s.spawned ≠ [] ∨ ∃ i, ¬(s.thread i).Idle

def Call.rereleases : Call γ → Bool
  | .picking .rerelease _ => true
  | _ => false

/-- The guard of the runs in which no wake-up is lost: a second-round release with
a task in the queue and no pause leaves another thread inside a queue operation,
and the counter of pauses stays below its maximum. -/
def KeepsWaker (s : State ι γ) : Action ι γ → Prop
  | .advance i =>
    (s.thread i).call.rereleases = true →
      s.tasks = [] ∨ s.pauseCount ≠ 0 ∨ ∃ j, j ≠ i ∧ (s.thread j).call ≠ .outside
  | .pause _ => s.pauseCount < maxPauseCount
  | _ => True

instance {n : Nat} [DecidableEq γ] (s : State (Fin n) γ) : ∀ a, Decidable (KeepsWaker s a)
  | .advance i => inferInstanceAs (Decidable ((s.thread i).call.rereleases = true →
      s.tasks = [] ∨ s.pauseCount ≠ 0 ∨ ∃ j, j ≠ i ∧ (s.thread j).call ≠ .outside))
  | .pause _ => inferInstanceAs (Decidable (s.pauseCount < maxPauseCount))
  | .push _ _ | .resume _ | .start _ | .finishedTask _ => .isTrue trivial

def NoStrandedTask (s : State ι γ) : Prop :=
  Quiet s → s.pauseCount = 0 → s.tasks = []

section Wakeup
variable [DecidableEq ι]

/-- A thread whose claim was refused leaves the owner of the claim awake. -/
theorem refused_awake {s : State ι γ} (owned : Ownership s) (set : s.taskChosen = true)
    {i : ι} {pc : Pick} {caller : Caller γ} (call : (s.thread i).call = .picking pc caller)
    (free : pc.claims = 0) :
    s.spawned ≠ [] ∨ ∃ j, ¬((s.setCall i .outside).thread j).Idle := by
  cases owned with
  | free unset => simp [unset] at set
  | pending task _ one => exact Or.inl (by simp [one])
  | held k _ _ owner threads =>
    refine Or.inr ⟨k,?_⟩
    rintro ⟨stopped,outside⟩
    by_cases same : k = i
    · subst k
      simp only [State.setCall,State.setThread,Function.update_self] at stopped
      simp [Thread.claims,stopped,call,Call.claims,free] at owner
    · simp only [State.setCall,State.setThread,Function.update_of_ne same] at stopped outside
      simp [Thread.claims,stopped,outside,Call.claims] at owner

theorem busy_awake (s : State ι γ) (i : ι) {th : Thread γ} (busy : ¬th.Idle) :
    ∃ j, ¬((s.setThread i th).thread j).Idle :=
  ⟨i,by simpa [State.setThread] using busy⟩

theorem call_awake (s : State ι γ) (i : ι) {call : Call γ} (inside : call ≠ .outside) :
    ∃ j, ¬((s.setCall i call).thread j).Idle :=
  busy_awake s i fun idle => inside idle.2

variable [DecidableEq γ] {framework : Framework}

omit [DecidableEq ι] in
theorem receive_busy (running : Option (QueuedTask γ)) (task : QueuedTask γ) (caller : Caller γ) :
    ¬(receive framework running task caller).Idle := by
  cases caller with
  | spawner => simp [receive,Thread.Idle]
  | runner group =>
    by_cases kept : framework = .tbb ∧ task.group = group <;> simp [receive,kept,Thread.Idle]

theorem advance_wakeful {s t : State ι γ} (owned : Ownership s) (i : ι)
    (guarded : KeepsWaker s (.advance i)) (taken : advance framework s i = some t) :
    Wakeful t := by
  intro waiting unpaused
  rcases eq : s.thread i with ⟨running,call⟩
  have call_eq : (s.thread i).call = call := by rw [eq]
  simp only [advance,eq] at taken
  simp only [KeepsWaker,eq] at guarded
  cases call with
  | outside => simp at taken
  | spawning task =>
    obtain rfl := Option.some.inj taken
    exact Or.inl (by simp)
  | picking pc caller =>
    cases pc with
    | loadPauseCount =>
      obtain rfl := Option.some.inj taken
      have zero : s.pauseCount = 0 := unpaused
      exact Or.inr (call_awake s i (by simp [zero]))
    | testEmpty =>
      obtain rfl := Option.some.inj taken
      have nonempty : s.tasks ≠ [] := waiting
      exact Or.inr (call_awake s i (by simp [nonempty]))
    | claim | reclaim =>
      simp only [Option.some.injEq] at taken
      subst t
      split
      · rename_i set
        exact refused_awake owned set call_eq rfl
      · exact Or.inr (call_awake s i (by simp))
    | tryPop | retryPop =>
      simp only [Option.some.injEq] at taken
      subst t
      split
      · exact Or.inr (call_awake s i (by simp))
      · exact Or.inr (busy_awake s i (receive_busy running _ caller))
    | release =>
      obtain rfl := Option.some.inj taken
      exact Or.inr (call_awake s i (by simp))
    | rerelease =>
      obtain rfl := Option.some.inj taken
      rcases guarded rfl with empty | paused | ⟨j,other,inside⟩
      · exact absurd empty waiting
      · exact absurd unpaused paused
      · refine Or.inr ⟨j,fun idle => inside ?_⟩
        simpa [State.setCall,State.setThread,Function.update_of_ne other] using idle.2

/-- A guarded step leaves somebody awake: the stepping thread itself, the owner
of the claim it was refused, or the thread the guard names. -/
theorem next_wakeful {s t : State ι γ} {a : Action ι γ} (owned : Ownership s)
    (guarded : KeepsWaker s a) (taken : next framework s a = some t) : Wakeful t := by
  cases a with
  | push i task =>
    simp only [next,Option.ite_none_right_eq_some,Option.some.injEq] at taken
    obtain ⟨_,rfl⟩ := taken
    exact fun _ _ => Or.inr (call_awake s i (by simp))
  | pause i =>
    simp only [next,Option.ite_none_right_eq_some,Option.some.injEq] at taken
    obtain ⟨_,rfl⟩ := taken
    intro _ unpaused
    have below : s.pauseCount ≠ maxPauseCount := Nat.ne_of_lt guarded
    simp [increment,below] at unpaused
  | resume i =>
    simp only [next,Option.ite_none_right_eq_some,Option.some.injEq] at taken
    obtain ⟨_,rfl⟩ := taken
    intro _ unpaused
    split
    · exact Or.inr (call_awake _ i (by simp))
    · rename_i paused
      simp only [paused,if_false] at unpaused
  | start i =>
    simp only [next] at taken
    split at taken
    · obtain rfl := Option.some.inj taken
      exact fun _ _ => Or.inr (busy_awake s i (by simp [Thread.Idle]))
    · simp at taken
  | finishedTask i =>
    simp only [next] at taken
    split at taken
    · obtain rfl := Option.some.inj taken
      exact fun _ _ => Or.inr (busy_awake s i (by simp [Thread.Idle]))
    · simp at taken
  | advance i => exact advance_wakeful owned i guarded taken

omit [DecidableEq ι] [DecidableEq γ] in
theorem initial_ownership : Ownership (initial ι γ) :=
  .free rfl rfl fun _ => rfl

omit [DecidableEq ι] [DecidableEq γ] in
theorem Wakeful.noStrandedTask {s : State ι γ} (awake : Wakeful s) : NoStrandedTask s := by
  intro quiet unpaused
  by_contra waiting
  rcases awake waiting unpaused with spawned | ⟨i,busy⟩
  · exact spawned quiet.1
  · exact busy (quiet.2 i)

theorem reaches_ownership {guard : State ι γ → Action ι γ → Prop} {s : State ι γ}
    (run : Reaches (next framework) guard (initial ι γ) s) : Ownership s :=
  run.invariant (fun _ _ _ owned _ taken => owned.next taken) initial_ownership

theorem reaches_wakeful {s : State ι γ}
    (run : Reaches (next framework) KeepsWaker (initial ι γ) s) : Wakeful s := by
  have preserved (s : State ι γ) (a : Action ι γ) (t : State ι γ) (both : Ownership s ∧ Wakeful s)
      (guarded : KeepsWaker s a) (taken : next framework s a = some t) : Ownership t ∧ Wakeful t :=
    ⟨both.1.next taken,next_wakeful both.1 guarded taken⟩
  exact (run.invariant preserved ⟨initial_ownership,fun waiting => absurd rfl waiting⟩).2

/-- A second-round release that the guard refuses is made by the last thread that
could have seen the task: the state it leads to has stranded it. -/
theorem late_release_quiet {s t : State ι γ} (owned : Ownership s) (i : ι)
    (refused : ¬KeepsWaker s (.advance i)) (taken : next framework s (.advance i) = some t) :
    ¬NoStrandedTask t := by
  rcases eq : s.thread i with ⟨running,call⟩
  simp only [KeepsWaker,eq] at refused
  push Not at refused
  obtain ⟨last,waiting,unpaused,outside⟩ := refused
  unfold Call.rereleases at last
  split at last
  · rename_i caller
    simp only [next,advance,eq,Option.some.injEq] at taken
    subst t
    have one : (s.thread i).claims = 1 := by
      refine Nat.le_antisymm (owned.single i) ?_
      simp [eq,Thread.claims,Call.claims,Pick.claims]
    cases owned with
    | free _ _ threads => simp [threads i] at one
    | pending _ _ _ threads => simp [threads i] at one
    | held k _ empty owner threads =>
      have same : k = i := by
        by_contra other
        rw [threads i (Ne.symm other)] at one
        omega
      subst k
      intro kept
      refine waiting (kept ⟨empty,fun j => ?_⟩ unpaused)
      by_cases self : j = i
      · subst j
        cases running with
        | none => simp [State.setCall,State.setThread,eq,Thread.Idle]
        | some task => simp [eq,Thread.claims,Call.claims,Pick.claims] at one
      · have none_left := threads j self
        simp only [Thread.claims,outside j self,Call.claims] at none_left
        simp only [State.setCall,State.setThread,Function.update_of_ne self]
        refine ⟨?_,outside j self⟩
        by_contra working
        simp [Option.isSome_iff_ne_none.mpr working] at none_left
  · simp at last

/-- Runs whose steps all meet the guard never strand a task, and a second-round
release outside the guard does so at once. -/
theorem no_stranded_task (framework : Framework) :
    (∀ s : State ι γ, Reaches (next framework) KeepsWaker (initial ι γ) s → NoStrandedTask s) ∧
    ∀ (s t : State ι γ) (i : ι), Reaches (next framework) KeepsWaker (initial ι γ) s →
      next framework s (.advance i) = some t → ¬KeepsWaker s (.advance i) → ¬NoStrandedTask t := by
  constructor
  · intro s run
    exact (reaches_wakeful run).noStrandedTask
  · intro s t i run taken refused
    exact late_release_quiet (reaches_ownership run) i refused taken

end Wakeup

/-- Thread 0 fails to pop twice; between its last look at the queue and its second
release, thread 1 pushes a task. -/
def failedPops : List (Action (Fin 2) Unit) :=
  [.push 0 ⟨0,()⟩,.advance 0,.advance 0,.advance 0,.advance 0,.start 0,.finishedTask 0,
    .advance 0,.advance 0,.advance 0,.advance 0,
    .push 1 ⟨1,()⟩,.advance 0,
    .advance 1,.advance 1,.advance 1,.advance 1,.start 1,.finishedTask 1,
    .advance 1,.advance 1,.advance 1,.advance 1,.advance 1,
    .advance 0,.advance 0,
    .push 1 ⟨2,()⟩]

/-- The release comes before the claim of thread 1. -/
def timelyRelease : List (Action (Fin 2) Unit) :=
  failedPops ++ [.advance 1,.advance 0,.advance 1,.advance 1,.advance 1,.start 1,.finishedTask 1,
    .advance 1,.advance 1,.advance 1,.advance 1,.advance 1]

theorem no_stranded_task_timelyRelease :
    ∃ s, execute (next .tbb) (initial (Fin 2) Unit) timelyRelease = some s ∧ Quiet s ∧ NoStrandedTask s := by
  refine ⟨_,rfl,⟨rfl,Fin.forall_fin_two.mpr ⟨⟨rfl,rfl⟩,⟨rfl,rfl⟩⟩⟩,(no_stranded_task .tbb).1 _ ?_⟩
  exact execute_reaches timelyRelease (by decide) rfl

/-- The claim of thread 1 comes before the release and is refused. -/
def lateRelease : List (Action (Fin 2) Unit) :=
  failedPops ++ [.advance 1,.advance 1,.advance 0]

theorem lateRelease_strands :
    ¬∀ s, Reachable (next .tbb) (initial (Fin 2) Unit) s → NoStrandedTask s := by
  intro all
  have ran : ∃ s, execute (next .tbb) (initial (Fin 2) Unit) lateRelease = some s ∧
      Quiet s ∧ s.pauseCount = 0 ∧ s.tasks = [⟨2,()⟩] := by
    exact ⟨_,rfl,⟨rfl,Fin.forall_fin_two.mpr ⟨⟨rfl,rfl⟩,⟨rfl,rfl⟩⟩⟩,rfl,rfl⟩
  obtain ⟨s,ran,quiet,unpaused,left⟩ := ran
  have empty := all s (execute_reachable _ ran) quiet unpaused
  simp [left] at empty

end ToyMtFramework.SerialTaskQueue
