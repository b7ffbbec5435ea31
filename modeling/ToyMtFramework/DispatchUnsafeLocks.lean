import ToyMtFramework.DispatchUnsafe

/-! Which bodies of thread-unsafe modules can be executing at the same time. The two queues are held one
after the other, and a `get` lets go only of the second one. As each product of a producer has its own
run queue, a module with several products can still be entered again while its body waits in a `get`. -/
namespace ToyMtFramework.DispatchUnsafe
open Activities Transition DispatchRunQueues
open DispatchQueues (mark mark_self)

variable {L : Type}

def executes (q : Queue) : Frame L → Nat
  | .task task => mark task.queue q
  | .addUnsafe w => mark w.runQueue q
  | .addWork _ | .getReturns _ => mark nonThreadSafeQueue q
  | .taskEnds p => mark p q
  | .work w | .body w | .getting w | .workEnds w => if w.module.isUnsafe then 0 else mark w.runQueue q
  | _ => 0

def suspends (q : Queue) : Frame L → Nat
  | .task (.suspendRunQueue w) => mark w.runQueue q
  | .task (.suspendUnsafeQueue _) | .task (.getSuspend _) => mark nonThreadSafeQueue q
  | _ => 0

def holds (q : Queue) : Frame L → Nat
  | .addUnsafe w | .queued _ (.suspendUnsafeQueue w) | .task (.suspendUnsafeQueue w)
  | .queued _ (.getSuspend w) | .task (.getSuspend w) | .resumeRunQueue w => mark w.runQueue q
  | .addWork w | .getReturns w => mark w.runQueue q + mark nonThreadSafeQueue q
  | .work w | .body w | .workEnds w =>
    if w.module.isUnsafe then mark w.runQueue q + mark nonThreadSafeQueue q else 0
  | .getting w => if w.module.isUnsafe then mark w.runQueue q else 0
  | _ => 0

def accounts : Accounts (Frame L) Queue where
  executes := executes
  suspends := suspends
  holds := holds
  inside q f := by
    cases f with
    | task task => cases task <;> simp [suspends,executes,Task.queue]
    | _ => simp [suspends]

def Proper (ws : List (ModuleWrapper L)) : Frame L → Prop
  | .asked w | .prefetching w | .work w | .body w | .workEnds w => w ∈ ws
  | .queued _ (.doWorkTask w) | .task (.doWorkTask w) => w ∈ ws ∧ w.module.isUnsafe = false
  | .queued _ (.suspendRunQueue w) | .task (.suspendRunQueue w) | .queued _ (.suspendUnsafeQueue w)
  | .task (.suspendUnsafeQueue w) | .addUnsafe w | .addWork w | .resumeRunQueue w =>
    w ∈ ws ∧ w.module.isUnsafe = true
  | .queued _ (.getSuspend w) | .task (.getSuspend w) | .getReturns w =>
    w ∈ ws ∧ w.module.isUnsafe = true ∧ w.module.syncGets = true
  | .getting w => w ∈ ws ∧ w.module.syncGets = true
  | .taskEnds _ => True

section Steps
variable [DecidableEq L] {ws : List (ModuleWrapper L)} {sh : Shared L} {f : Frame L} {again : Bool}
  {r : Reaction (Shared L) (Frame L)} {rest : Multiset (Frame L)}

theorem proper_react (proper : Proper ws f) (reacted : react sh f again = some r) :
    ∀ g ∈ r.frames, Proper ws g := by
  cases f with
  | asked w =>
    cases reacted
    cases sh.wasRun w with
    | true => simp
    | false => simpa [Proper] using proper
  | prefetching w =>
    cases reacted
    cases kind : w.module.isUnsafe <;> simpa [Proper,Shared.waits,kind] using proper
  | queued turn task =>
    obtain ⟨queues,_,rfl⟩ := Option.map_eq_some_iff.mp reacted
    cases task with
    | doWorkTask w | suspendRunQueue w | suspendUnsafeQueue w | getSuspend w => simpa [Proper] using proper
  | task task =>
    cases task with
    | doWorkTask w =>
      cases reacted
      simpa [Proper] using proper.1
    | suspendRunQueue w | suspendUnsafeQueue w | getSuspend w =>
      cases reacted
      simpa [Proper] using proper
  | addUnsafe w | addWork w =>
    cases reacted
    simp only [Proper] at proper
    simp [Proper,Shared.waits,proper]
  | taskEnds q =>
    cases reacted
    simp
  | work w =>
    cases reacted
    cases sh.wasRun w <;> simpa [Proper] using proper
  | body w =>
    simp only [react] at reacted
    split at reacted <;> cases reacted
    · rename_i gets
      obtain ⟨_,gets⟩ := Bool.and_eq_true_iff.mp gets
      simp only [Proper] at proper
      simp [Proper,proper,gets]
    · simpa [Proper] using proper
  | getting w =>
    simp only [react] at reacted
    simp only [Proper] at proper
    split at reacted <;> cases reacted
    · rename_i kind
      simp [Proper,Shared.waits,proper,kind]
    · simp [Proper,proper]
  | getReturns w =>
    cases reacted
    simpa [Proper] using proper.1
  | workEnds w =>
    simp only [react] at reacted
    simp only [Proper] at proper
    split at reacted <;> cases reacted
    · rename_i kind
      simp [Proper,proper,kind]
    · simp
  | resumeRunQueue w =>
    cases reacted
    simp

theorem locked_react (proper : Proper ws f) (locked : accounts.Locked sh.queues (f ::ₘ rest))
    (reacted : react sh f again = some r) : accounts.Locked r.shared.queues (r.frames + rest) := by
  cases f with
  | asked w =>
    cases reacted
    cases sh.wasRun w <;> refine locked.keep rfl rfl rfl ?_ ?_ ?_ <;>
      simp [accounts,executes,suspends,holds]
  | prefetching w =>
    cases reacted
    cases w.module.isUnsafe <;> refine locked.keep rfl rfl rfl ?_ ?_ ?_ <;>
      simp [accounts,executes,suspends,holds,Shared.waits]
  | queued turn task =>
    obtain ⟨queues,began,rfl⟩ := Option.map_eq_some_iff.mp reacted
    refine locked.start began ?_ ?_ ?_ <;> cases task <;>
      simp [accounts,executes,suspends,holds,Task.queue]
  | task task =>
    cases task with
    | doWorkTask w =>
      cases reacted
      have kind := proper.2
      refine locked.keep rfl rfl rfl ?_ ?_ ?_ <;> simp [accounts,executes,suspends,holds,Task.queue,kind]
    | suspendRunQueue w | suspendUnsafeQueue w | getSuspend w =>
      cases reacted
      refine locked.suspend ?_ ?_ ?_ <;> simp [accounts,executes,suspends,holds,Task.queue]
  | addUnsafe w =>
    cases reacted
    refine locked.keep rfl rfl rfl ?_ ?_ ?_ <;> simp [accounts,executes,suspends,holds,Shared.waits]
  | addWork w =>
    cases reacted
    have kind := proper.2
    refine locked.keep rfl rfl rfl ?_ ?_ ?_ <;> simp [accounts,executes,suspends,holds,kind]
  | taskEnds q =>
    cases reacted
    refine locked.finish ?_ ?_ ?_ <;> simp [accounts,executes,suspends,holds]
  | work w =>
    cases reacted
    cases sh.wasRun w <;> refine locked.keep rfl rfl rfl ?_ ?_ ?_ <;>
      simp [accounts,executes,suspends,holds]
  | body w =>
    simp only [react] at reacted
    split at reacted <;> cases reacted
    · cases kind : w.module.isUnsafe with
      | true =>
        refine locked.resume ?_ ?_ ?_ <;> simp [accounts,executes,suspends,holds,kind]
      | false =>
        refine locked.keep rfl rfl rfl ?_ ?_ ?_ <;> simp [accounts,executes,suspends,holds,kind]
    · refine locked.keep rfl rfl rfl ?_ ?_ ?_ <;> simp [accounts,executes,suspends,holds]
  | getting w =>
    simp only [react] at reacted
    split at reacted <;> cases reacted
    all_goals
      rename_i kind
      refine locked.keep rfl rfl rfl ?_ ?_ ?_ <;> simp [accounts,executes,suspends,holds,Shared.waits,kind]
  | getReturns w =>
    cases reacted
    have kind := proper.2.1
    refine locked.finish ?_ ?_ ?_ <;> simp [accounts,executes,suspends,holds,kind]
  | workEnds w =>
    simp only [react] at reacted
    split at reacted <;> cases reacted
    · rename_i kind
      refine locked.resume ?_ ?_ ?_ <;> simp [accounts,executes,suspends,holds,kind]
    · rename_i kind
      refine locked.finish ?_ ?_ ?_ <;> simp [accounts,executes,suspends,holds,kind]
  | resumeRunQueue w =>
    cases reacted
    refine locked.resume ?_ ?_ ?_ <;> simp [accounts,executes,suspends,holds]

structure Ordered (ws : List (ModuleWrapper L)) (s : State L) : Prop where
  proper : ∀ f ∈ s.bag, Proper ws f
  locked : accounts.Locked s.shared.queues s.bag

omit [DecidableEq L] in
theorem initial_ordered (ws : List (ModuleWrapper L)) : Ordered ws (initial L) := by
  constructor
  · simp [initial,Pool.bag]
  · constructor <;> simp [initial,Pool.bag,DispatchQueues.empty]

theorem Ordered.next {s t : State L} {a : Action} (ordered : Ordered ws s) (taken : next ws s a = some t) :
    Ordered ws t := by
  obtain ⟨proper,locked⟩ := ordered
  cases a with
  | act thread again =>
    obtain ⟨f,r,rest,reacted,shared,before,after,_⟩ := Pool.step_bag taken
    rw [before] at proper locked
    have own := proper f (Multiset.mem_cons_self f rest)
    constructor
    · rw [after]
      intro g member
      rcases Multiset.mem_add.mp member with new | old
      · exact proper_react own reacted g new
      · exact proper g (Multiset.mem_cons_of_mem old)
    · rw [shared,after]
      exact locked_react own locked reacted
  | ask wrapper =>
    obtain ⟨w,found,rfl⟩ := Option.map_eq_some_iff.mp taken
    constructor
    · rw [Pool.bag_spawn]
      intro g member
      rcases Multiset.mem_cons.mp member with rfl | old
      · exact List.mem_of_getElem? found
      · exact proper g old
    · rw [Pool.bag_spawn]
      obtain ⟨running,suspended,one,matched⟩ := locked
      constructor <;> simpa [accounts,executes,suspends,holds] using by assumption
  | reset event =>
    obtain rfl := Option.some.inj taken
    exact ⟨proper,locked⟩

theorem reachable_ordered {s : State L} (run : Reachable (DispatchUnsafe.next ws) (initial L) s) : Ordered ws s :=
  Reaches.invariant (fun _ _ _ ordered _ taken => ordered.next taken) run (initial_ordered ws)

omit [DecidableEq L] in
theorem Ordered.outside {s : State L} (ordered : Ordered ws s) : weigh outside s.bag ≤ 1 := by
  refine ordered.locked.held_le_one (q := nonThreadSafeQueue) fun f _ => ?_
  cases f with
  | body w => cases kind : w.module.isUnsafe <;> simp [DispatchUnsafe.outside,accounts,holds,kind,mark]
  | _ => exact Nat.zero_le _

/-- A body holds the run queue of its wrapper all the time. -/
theorem bodyOf_le_runQueue {m : Module L} {q : Queue} (kind : m.isUnsafe = true)
    (queue : ∀ w ∈ ws, w.module = m → w.runQueue = q) {f : Frame L} (proper : Proper ws f) :
    bodyOf m f ≤ holds q f := by
  have own : ∀ w ∈ ws, (if w.module = m then 1 else 0) ≤ mark w.runQueue q := by
    intro w member
    split
    · rename_i same
      rw [queue w member same,mark_self]
    · exact Nat.zero_le _
  have whole : ∀ w ∈ ws, (if w.module = m then 1 else 0) ≤ if w.module.isUnsafe then mark w.runQueue q else 0 := by
    intro w member
    by_cases same : w.module = m
    · have does : w.module.isUnsafe = true := by rw [same,kind]
      simpa only [if_pos does] using own w member
    · rw [if_neg same]
      exact Nat.zero_le _
  cases f with
  | body w =>
    refine (whole w proper).trans ?_
    simp only [holds]
    split
    · exact Nat.le_add_right _ _
    · exact Nat.le_refl 0
  | getting w => exact whole w proper.1
  | getReturns w => exact (own w proper.1).trans (Nat.le_add_right _ _)
  | queued turn task =>
    cases task with
    | getSuspend w => exact own w proper.1
    | _ => exact Nat.zero_le _
  | task task =>
    cases task with
    | getSuspend w => exact own w proper.1
    | _ => exact Nat.zero_le _
  | _ => exact Nat.zero_le _

/-- A body that makes no `get` holds the queue of all thread-unsafe modules too. -/
theorem bodyOf_le_nonThreadSafeQueue {m : Module L} (kind : m.isUnsafe = true) (gets : m.syncGets = false)
    {f : Frame L} (proper : Proper ws f) : bodyOf m f ≤ holds nonThreadSafeQueue f := by
  have other : ∀ w : ModuleWrapper L, w.module.syncGets = true → w.module ≠ m := by
    intro w does same
    rw [same,gets] at does
    cases does
  cases f with
  | body w =>
    by_cases same : w.module = m
    · simp only [bodyOf,holds,same,kind,if_true,mark_self]
      exact Nat.le_add_left 1 _
    · simp only [bodyOf,if_neg same]
      exact Nat.zero_le _
  | getting w =>
    rw [bodyOf,if_neg (other w proper.2)]
    exact Nat.zero_le _
  | getReturns w =>
    rw [bodyOf,if_neg (other w proper.2.2)]
    exact Nat.zero_le _
  | queued turn task =>
    cases task with
    | getSuspend w =>
      rw [bodyOf,if_neg (other w proper.2.2)]
      exact Nat.zero_le _
    | _ => exact Nat.zero_le _
  | task task =>
    cases task with
    | getSuspend w =>
      rw [bodyOf,if_neg (other w proper.2.2)]
      exact Nat.zero_le _
    | _ => exact Nat.zero_le _
  | _ => exact Nat.zero_le _

theorem bodyOf_wrapper {m : Module L} {f : Frame L} (proper : Proper ws f) (counts : 0 < bodyOf m f) :
    ∃ w ∈ ws, w.module = m := by
  have found : ∀ w ∈ ws, 0 < (if w.module = m then 1 else 0) → ∃ w ∈ ws, w.module = m := by
    intro w member positive
    by_cases same : w.module = m
    · exact ⟨w,member,same⟩
    · simp [same] at positive
  cases f with
  | body w => exact found w proper counts
  | getting w | getReturns w => exact found w proper.1 counts
  | queued turn task =>
    cases task with
    | getSuspend w => exact found w proper.1 counts
    | _ => cases counts
  | task task =>
    cases task with
    | getSuspend w => exact found w proper.1 counts
    | _ => cases counts
  | _ => cases counts

theorem Ordered.instances {s : State L} (ordered : Ordered ws s) (one : OneQueue ws) {m : Module L}
    (kind : m.isUnsafe = true) : weigh (bodyOf m) s.bag ≤ 1 := by
  rcases Nat.eq_zero_or_pos (weigh (bodyOf m) s.bag) with none | some
  · rw [none]
    exact Nat.zero_le 1
  obtain ⟨f,member,counts⟩ := (weigh_pos_iff (bodyOf m) s.bag).mp some
  obtain ⟨w,listed,rfl⟩ := bodyOf_wrapper (ordered.proper f member) counts
  cases gets : w.module.syncGets with
  | true =>
    have queue : ∀ x ∈ ws, x.module = w.module → x.runQueue = w.runQueue := by
      intro x other same
      exact one x other w listed same (by rw [same,kind]) (by rw [same,gets])
    exact ordered.locked.held_le_one fun g inside => bodyOf_le_runQueue kind queue (ordered.proper g inside)
  | false =>
    exact ordered.locked.held_le_one fun g inside =>
      bodyOf_le_nonThreadSafeQueue kind gets (ordered.proper g inside)

theorem Ordered.exclusive {s : State L} (ordered : Ordered ws s) (one : OneQueue ws) : Exclusive s where
  outside := ordered.outside
  instances _ kind := ordered.instances one kind
  suspended := ordered.locked.suspended_le nonThreadSafeQueue
  matched := ordered.locked.matched

end Steps
end ToyMtFramework.DispatchUnsafe
