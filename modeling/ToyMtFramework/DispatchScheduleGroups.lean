import ToyMtFramework.DispatchScheduleReactions
import ToyMtFramework.ScheduleRound

/-! The groups and queues of a `Schedule` of the Dispatch framework. Each group is entered as often as
its tasks, blocks and calls have yet to leave it, and the run queue of a wrapper is held by the one
worker that does its work; what a thread-unsafe module holds besides is the queue of all of them. -/
namespace ToyMtFramework.DispatchSchedule
open Activities Transition
open Schedule (Job Wrapper)
open DispatchQueues (mark mark_self)

variable {L D E : Type}

def Worker.group : Worker L D → GroupId L D
  | .filterOnPath _ _ _ => .allPathsDone
  | .producer label product => .produced (.producer label product)

def Task.worker : Task L D → Worker L D
  | .doWorkTask t | .suspendRunQueue t | .suspendUnsafeQueue t => t

section Weights
variable [DecidableEq L] [DecidableEq D]

def Block.owes (g : GroupId L D) : Block L D → Nat
  | .work t => mark t.group g
  | .doneWithGet w => mark (.prefetch w) g
  | .scheduleCallback => 0

/-- How often the group is left by what the frame does. -/
def owes (g : GroupId L D) : Frame L D E → Nat
  | .processPresentPath _ | .runAsync _ | .runFilterAsync _ _ | .doNextIfSuccess _ _ _ _ | .pathCallback _ =>
    mark .allPathsDone g
  | .doPrefetchAndWork t | .addUnsafe t | .addWork t | .doWork t _ | .body t _ _ _ | .put t _ _
  | .setWasRun t _ | .worked t _ => mark t.group g
  | .requestPrefetch t | .prefetch t _ | .doProduceAsync t _ _ | .produceAsync t _ _ | .waitForGet t _ _ =>
    mark t.group g + mark (.prefetch t.wrapper) g
  | .notifyGet t _ _ => mark t.group g + 2 * mark (.prefetch t.wrapper) g
  | .doProduceAsyncImpl w => mark (.produced w) g
  | .notify _ b | .notified _ _ b | .block b => b.owes g
  | .leave h => mark h g
  | .queued _ task | .task task => mark task.worker.group g
  | _ => 0

def executing (job : Job L D E) (t : Worker L D) (q : QueueId L D) : Nat :=
  if isUnsafe job t.wrapper then 0 else mark (.runQueue t.wrapper) q

def holding (job : Job L D E) (t : Worker L D) (q : QueueId L D) : Nat :=
  if isUnsafe job t.wrapper then mark (.runQueue t.wrapper) q + mark .nonThreadSafe q else 0

def executes (job : Job L D E) (q : QueueId L D) : Frame L D E → Nat
  | .task task => mark task.queue q
  | .addUnsafe t => mark (.runQueue t.wrapper) q
  | .addWork _ => mark .nonThreadSafe q
  | .taskEnds p => mark p q
  | .doWork t false | .body t false _ _ | .put t false _ | .setWasRun t false | .worked t false | .workEnds t =>
    executing job t q
  | _ => 0

def suspends (q : QueueId L D) : Frame L D E → Nat
  | .task (.suspendRunQueue t) => mark (.runQueue t.wrapper) q
  | .task (.suspendUnsafeQueue _) => mark .nonThreadSafe q
  | _ => 0

def holds (job : Job L D E) (q : QueueId L D) : Frame L D E → Nat
  | .addUnsafe t | .queued _ (.suspendUnsafeQueue t) | .task (.suspendUnsafeQueue t) | .resumeRunQueue t =>
    mark (.runQueue t.wrapper) q
  | .addWork t => mark (.runQueue t.wrapper) q + mark .nonThreadSafe q
  | .doWork t false | .body t false _ _ | .put t false _ | .setWasRun t false | .worked t false | .workEnds t =>
    holding job t q
  | _ => 0

def accounts (job : Job L D E) : Accounts (Frame L D E) (QueueId L D) where
  executes := executes job
  suspends := suspends
  holds := holds job
  inside q f := by
    cases f with
    | task task => cases task <;> simp [suspends,executes,Task.queue]
    | _ => simp [suspends]

def turn (q : QueueId L D) (n : Nat) : Frame L D E → Nat
  | .queued m task => if task.queue = q ∧ m = n then 1 else 0
  | _ => 0

def Notifies (job : Job L D E) (g : GroupId L D) : Block L D → Prop
  | .work t => g = .prefetch t.wrapper
  | .doneWithGet w => ∃ v ∈ job.getters w, g = .produced v
  | .scheduleCallback => g = .allPathsDone

/-- The frame is at a point that its module or path comes to. -/
def Proper (job : Job L D E) : Frame L D E → Prop
  | .runFilterAsync p i => i < (job.path p).length
  | .doProduceAsyncImpl g => (producerOf g).isSome = true
  | .prefetch t gs => ∀ v ∈ gs, v ∈ job.getters t.wrapper
  | .doProduceAsync t g gs | .produceAsync t g gs | .waitForGet t g gs | .notifyGet t g gs =>
    g ∈ job.getters t.wrapper ∧ ∀ v ∈ gs, v ∈ job.getters t.wrapper
  | .notify g b | .notified g _ b => Notifies job g b
  | .queued _ (.doWorkTask t) | .task (.doWorkTask t) => isUnsafe job t.wrapper = false
  | .queued _ (.suspendRunQueue t) | .task (.suspendRunQueue t) | .queued _ (.suspendUnsafeQueue t)
  | .task (.suspendUnsafeQueue t) | .addUnsafe t | .addWork t | .resumeRunQueue t => isUnsafe job t.wrapper = true
  | .doNextIfSuccess _ _ _ success | .pathCallback success => success = true
  | _ => True

end Weights

section Steps
variable [DecidableEq L] [DecidableEq D] {job : Job L D E} {sh : Shared L D E} {f : Frame L D E}
  {r : Reaction (Shared L D E) (Frame L D E)} {rest : Multiset (Frame L D E)}

theorem proper_react (proper : Proper job f) (reacts : Reacts job sh f r) : ∀ g ∈ r.frames, Proper job g := by
  cases reacts with
  | launched some => simp [Proper,Notifies]
  | runAsync p some => simpa [Proper] using List.length_pos_iff.mpr some
  | nextFilter p i calm more => simpa [Proper] using more
  | requestPrefetch t some first => simp [Proper]
  | prefetched t => simp [Proper,Notifies]
  | cached t g gs known there =>
    simp only [Proper] at proper
    simpa [Proper] using fun v member => proper v (List.mem_cons_of_mem g member)
  | getAsync t g gs known missing =>
    simp only [Proper] at proper
    simpa [Proper] using proper
  | produceDone t g gs ran | doProduceAsync t g gs unrun | waitForGet t g gs =>
    simp only [Proper] at proper
    simpa [Proper] using proper
  | produceAsync t g gs =>
    simp only [Proper] at proper
    obtain ⟨m,_,named,_,rfl⟩ := Schedule.getters_known job proper.1
    simpa [Proper,producerOf] using proper
  | notifyGet t g gs =>
    simp only [Proper] at proper
    simpa [Proper,Notifies] using proper
  | notify g b busy =>
    simpa [Proper] using proper
  | addTask t task kind =>
    subst kind
    cases thread : isUnsafe job t.wrapper <;> simp [Proper,Shared.waits,thread]
  | queued turn task queues began => cases task <;> simpa [Proper] using proper
  | doWorkTask t => simp [Proper]
  | suspendRunQueue t | addUnsafe t | suspendUnsafeQueue t =>
    simp only [Proper] at proper
    simp [Proper,Shared.waits,proper]
  | worked t direct =>
    cases t <;> cases direct <;> simp [Proper,Shared.informs]
  | unsafeEnds t kind => simpa [Proper] using kind
  | noSuccess p i keep => cases proper
  | _ => simp [Proper]

theorem advances_react (reacts : Reacts job sh f r) : Advances sh.groups r.shared.groups := by
  cases reacts with
  | process p ps | presentPath p calm | doPrefetchAndWork t known | produceAsync t g gs
  | waitForGet t g gs | doProduceAsyncImpl label product unrun => exact advances_enter _ _
  | leave g => exact advances_leave _ _
  | _ => exact Advances.refl _

theorem balanced_react (proper : Proper job f) (balanced : Balanced owes sh.groups (f ::ₘ rest))
    (reacts : Reacts job sh f r) : Balanced owes r.shared.groups (r.frames + rest) := by
  cases reacts with
  | process p ps | presentPath p calm | doPrefetchAndWork t known | produceAsync t g gs
  | waitForGet t g gs | doProduceAsyncImpl label product unrun =>
    refine balanced.enter fun p => ?_
    simp [owes,Worker.group]
    try omega
  | leave g => exact balanced.leave fun p => by simp [owes]
  | noSuccess p i keep => cases proper
  | addTask t task kind =>
    refine balanced.keep fun p => ?_
    subst kind
    cases isUnsafe job t.wrapper <;> simp [owes,Block.owes,Shared.waits,Task.worker]
  | worked t direct =>
    refine balanced.keep fun p => ?_
    cases t <;> cases direct <;> simp [owes,Shared.informs,Worker.group]
  | prefetched t | notifyGet t g gs =>
    refine balanced.keep fun p => ?_
    simp [owes,Block.owes]
    omega
  | _ =>
    refine balanced.keep fun p => ?_
    simp [owes,Block.owes,Worker.group,Task.worker,Shared.waits]

theorem locked_react (proper : Proper job f) (locked : (accounts job).Locked sh.queues (f ::ₘ rest))
    (reacts : Reacts job sh f r) : (accounts job).Locked r.shared.queues (r.frames + rest) := by
  cases reacts with
  | addTask t task kind =>
    subst kind
    cases isUnsafe job t.wrapper <;> refine locked.keep rfl rfl rfl ?_ ?_ ?_ <;>
      simp [accounts,executes,suspends,holds,Shared.waits]
  | queued turn task queues began =>
    refine locked.start began ?_ ?_ ?_ <;> cases task <;>
      simp [accounts,executes,suspends,holds,Task.queue]
  | doWorkTask t =>
    simp only [Proper] at proper
    refine locked.keep rfl rfl rfl ?_ ?_ ?_ <;>
      simp [accounts,executes,suspends,holds,Task.queue,executing,holding,proper]
  | suspendRunQueue t | suspendUnsafeQueue t =>
    refine locked.suspend ?_ ?_ ?_ <;> simp [accounts,executes,suspends,holds,Task.queue]
  | addUnsafe t =>
    refine locked.keep rfl rfl rfl ?_ ?_ ?_ <;> simp [accounts,executes,suspends,holds,Shared.waits]
  | addWork t =>
    simp only [Proper] at proper
    refine locked.keep rfl rfl rfl ?_ ?_ ?_ <;>
      simp [accounts,executes,suspends,holds,executing,holding,proper]
  | taskEnds q => refine locked.finish ?_ ?_ ?_ <;> simp [accounts,executes,suspends,holds]
  | workDone t direct ran | doWork t direct unrun | get t direct g gs values there
  | body t direct values seed returned | putsDone t direct | put label product direct put puts known
  | setWasRun t direct =>
    cases direct <;> refine locked.keep rfl rfl rfl ?_ ?_ ?_ <;> simp [accounts,executes,suspends,holds]
  | worked t direct =>
    cases direct <;> cases t <;> refine locked.keep rfl rfl rfl ?_ ?_ ?_ <;>
      simp [accounts,executes,suspends,holds,Shared.informs]
  | unsafeEnds t kind =>
    refine locked.resume ?_ ?_ ?_ <;> simp [accounts,executes,suspends,holds,executing,holding,kind]
  | workEnds t kind =>
    refine locked.finish ?_ ?_ ?_ <;> simp [accounts,executes,suspends,holds,executing,holding,kind]
  | resumeRunQueue t => refine locked.resume ?_ ?_ ?_ <;> simp [accounts,executes,suspends,holds]
  | _ => refine locked.keep rfl rfl rfl ?_ ?_ ?_ <;> simp [accounts,executes,suspends,holds]

theorem turns_react (turns : Turns turn sh.queues (f ::ₘ rest)) (reacts : Reacts job sh f r) :
    Turns turn r.shared.queues (r.frames + rest) := by
  cases reacts with
  | addTask t task kind => exact turns.add fun p n => by simp [turn,Shared.waits,eq_comm]
  | addUnsafe t => exact turns.add fun p n => by simp [turn,Shared.waits,eq_comm]
  | queued turn task queues began => exact turns.start began fun p n => by simp [DispatchSchedule.turn,eq_comm]
  | worked t direct =>
    cases direct <;> cases t <;> exact turns.keep rfl rfl fun p n => by simp [turn,Shared.informs]
  | _ => exact turns.keep rfl rfl fun p n => by simp [turn]

end Steps

section Invariant
variable [DecidableEq L] [DecidableEq D] {job : Job L D E} {sh : Shared L D E} {f : Frame L D E}
  {r : Reaction (Shared L D E) (Frame L D E)} {bag rest : Multiset (Frame L D E)}

structure Ordered (job : Job L D E) (sh : Shared L D E) (bag : Multiset (Frame L D E)) : Prop where
  proper : ∀ f ∈ bag, Proper job f
  calm : sh.fatalJobErrorOccured = false
  balanced : Balanced owes sh.groups bag
  locked : (accounts job).Locked sh.queues bag
  turns : Turns turn sh.queues bag

theorem Ordered.react (ordered : Ordered job sh (f ::ₘ rest)) (reacts : Reacts job sh f r) :
    Ordered job r.shared (r.frames + rest) := by
  obtain ⟨proper,calm,balanced,locked,turns⟩ := ordered
  have own := proper f (Multiset.mem_cons_self f rest)
  refine ⟨fun g member => ?_,?_,balanced_react own balanced reacts,locked_react own locked reacts,
    turns_react turns reacts⟩
  · rcases Multiset.mem_add.mp member with new | old
    · exact proper_react own reacts g new
    · exact proper g (Multiset.mem_cons_of_mem old)
  · cases reacts with
    | pathCallback success =>
      obtain rfl : success = true := own
      simpa using calm
    | _ => exact calm

theorem Ready.ordered {eventIndex : Nat} (ready : Ready sh eventIndex) :
    Ordered job (processing job sh).shared (processing job sh).bag := by
  refine ⟨?_,ready.fatalJobErrorOccured,⟨?_,ready.overLeft⟩,⟨?_,?_,?_,ready.overResumed⟩,⟨?_,?_⟩⟩
  · simp [processing,Pool.bag,Proper]
  · intro g
    simp [processing,Pool.bag,owes,ready.count]
  · intro q
    simp [processing,Pool.bag,accounts,executes,(ready.queues q).2.1]
  · intro q
    simp [processing,Pool.bag,accounts,holds,(ready.queues q).2.2]
  · intro q
    simp [processing,Pool.bag,accounts,suspends,(ready.queues q).2.2]
  · intro q n
    have same : sh.queues.started q = sh.queues.added q := (ready.queues q).1
    simp [processing,Pool.bag,turn,same]
  · intro q
    exact Nat.le_of_eq (ready.queues q).1

/-- Where a worker does its work in a queue, up to the end of its task. -/
def working (w : Wrapper L D) : Frame L D E → Nat
  | .doWork t false | .body t false _ _ | .put t false _ | .setWasRun t false | .worked t false | .workEnds t =>
    if t.wrapper = w then 1 else 0
  | _ => 0

/-- Only one worker of a wrapper does its work at a time. -/
theorem Ordered.working_le_one (ordered : Ordered job sh bag) (w : Wrapper L D) :
    weigh (working w) bag ≤ 1 := by
  have own (t : Worker L D) (q : QueueId L D) (queue : q = .runQueue w) :
      (if t.wrapper = w then 1 else 0) ≤ if isUnsafe job w then holding job t q else executing job t q := by
    by_cases same : t.wrapper = w
    · subst same queue
      cases kind : isUnsafe job t.wrapper <;> simp [holding,executing,kind,mark_self]
    · simp [same]
  cases kind : isUnsafe job w with
  | true =>
    refine ordered.locked.held_le_one (q := .runQueue w) fun f _ => ?_
    have own (t : Worker L D) : (if t.wrapper = w then 1 else 0) ≤ holding job t (.runQueue w) := by
      simpa [kind] using own t (.runQueue w) rfl
    cases f with
    | doWork t direct | body t direct _ _ | put t direct _ | setWasRun t direct | worked t direct =>
      cases direct with
      | false => exact own t
      | true => exact Nat.zero_le _
    | workEnds t => exact own t
    | _ => exact Nat.zero_le _
  | false =>
    have own (t : Worker L D) : (if t.wrapper = w then 1 else 0) ≤ executing job t (.runQueue w) := by
      simpa [kind] using own t (.runQueue w) rfl
    have le : weigh (working w) bag ≤ weigh (executes job (.runQueue w)) bag := by
      refine weigh_le (fun f => ?_) bag
      cases f with
      | doWork t direct | body t direct _ _ | put t direct _ | setWasRun t direct | worked t direct =>
        cases direct with
        | false => exact own t
        | true => exact Nat.zero_le _
      | workEnds t => exact own t
      | _ => exact Nat.zero_le _
    have running := ordered.locked.running (.runQueue w)
    have one := Bool.toNat_le (sh.queues.running (.runQueue w))
    exact le.trans (running.trans_le one)

end Invariant
end ToyMtFramework.DispatchSchedule
