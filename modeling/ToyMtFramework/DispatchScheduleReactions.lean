import ToyMtFramework.DispatchSchedule

/-! What a frame of a `Schedule` of the Dispatch framework can do, case by case. -/
namespace ToyMtFramework.DispatchSchedule
open Activities
open Schedule (Job Wrapper)

variable {L D E : Type} [DecidableEq L] [DecidableEq D]

inductive Reacts (job : Job L D E) (sh : Shared L D E) :
    Frame L D E → Reaction (Shared L D E) (Frame L D E) → Prop
  | noPaths (none : job.paths = []) :
    Reacts job sh (.process []) ⟨{sh with called := sh.called ++ [true]},[],[]⟩
  | launched (some : job.paths ≠ []) :
    Reacts job sh (.process []) ⟨sh,[.notify .allPathsDone .scheduleCallback],[]⟩
  | process (p : Nat) (ps : List Nat) : Reacts job sh (.process (p :: ps))
    ⟨sh.withGroups (sh.groups.enter .allPathsDone),[.process ps],[.processPresentPath p]⟩
  | absentPath (p : Nat) (fatal : sh.fatalJobErrorOccured = true) :
    Reacts job sh (.processPresentPath p) ⟨sh,[.leave .allPathsDone],[]⟩
  | presentPath (p : Nat) (calm : sh.fatalJobErrorOccured = false) : Reacts job sh (.processPresentPath p)
    ⟨sh.withGroups (sh.groups.enter .allPathsDone),[.runAsync p,.leave .allPathsDone],[]⟩
  | emptyPath (p : Nat) (empty : job.path p = []) : Reacts job sh (.runAsync p) ⟨sh,[.pathCallback true],[]⟩
  | runAsync (p : Nat) (some : job.path p ≠ []) : Reacts job sh (.runAsync p) ⟨sh,[.runFilterAsync p 0],[]⟩
  | skipFilter (p i : Nat) (fatal : sh.fatalJobErrorOccured = true) :
    Reacts job sh (.runFilterAsync p i) ⟨sh,[.pathCallback true],[]⟩
  | filterDone (p i : Nat) (label : L) (calm : sh.fatalJobErrorOccured = false)
    (at_i : (job.path p)[i]? = some label) (ran : sh.wasRun (.filter label) = true) :
    Reacts job sh (.runFilterAsync p i) ⟨sh,[.doWork (.filterOnPath p i label) true],[]⟩
  | filterAsync (p i : Nat) (label : L) (calm : sh.fatalJobErrorOccured = false)
    (at_i : (job.path p)[i]? = some label) (unrun : sh.wasRun (.filter label) = false) :
    Reacts job sh (.runFilterAsync p i) ⟨sh,[.doPrefetchAndWork (.filterOnPath p i label)],[]⟩
  | doPrefetchAndWork (t : Worker L D) (known : (job.module t.wrapper).isSome = true) :
    Reacts job sh (.doPrefetchAndWork t)
      ⟨sh.withGroups (sh.groups.enter (.prefetch t.wrapper)),[.requestPrefetch t],[]⟩
  | requested (t : Worker L D)
    (before : job.getters t.wrapper = [] ∨ sh.requestedPrefetch t.wrapper = true) :
    Reacts job sh (.requestPrefetch t) ⟨sh,[.prefetch t []],[]⟩
  | requestPrefetch (t : Worker L D) (some : job.getters t.wrapper ≠ [])
    (first : sh.requestedPrefetch t.wrapper = false) : Reacts job sh (.requestPrefetch t)
      ⟨{sh with requestedPrefetch := Function.update sh.requestedPrefetch t.wrapper true},
        [.prefetch t (job.getters t.wrapper)],[]⟩
  | prefetched (t : Worker L D) : Reacts job sh (.prefetch t [])
    ⟨sh,[.leave (.prefetch t.wrapper),.notify (.prefetch t.wrapper) (.work t)],[]⟩
  | cached (t : Worker L D) (g : Wrapper L D) (gs : List (Wrapper L D))
    (known : (job.module g).isSome = true) (there : sh.wasCached g = true) :
    Reacts job sh (.prefetch t (g :: gs)) ⟨sh,[.prefetch t gs],[]⟩
  | getAsync (t : Worker L D) (g : Wrapper L D) (gs : List (Wrapper L D))
    (known : (job.module g).isSome = true) (missing : sh.wasCached g = false) :
    Reacts job sh (.prefetch t (g :: gs)) ⟨sh,[.doProduceAsync t g gs],[]⟩
  | produceDone (t : Worker L D) (g : Wrapper L D) (gs : List (Wrapper L D)) (ran : sh.wasRun g = true) :
    Reacts job sh (.doProduceAsync t g gs) ⟨sh,[.waitForGet t g gs],[]⟩
  | doProduceAsync (t : Worker L D) (g : Wrapper L D) (gs : List (Wrapper L D)) (unrun : sh.wasRun g = false) :
    Reacts job sh (.doProduceAsync t g gs) ⟨sh,[.produceAsync t g gs],[]⟩
  | produceAsync (t : Worker L D) (g : Wrapper L D) (gs : List (Wrapper L D)) :
    Reacts job sh (.produceAsync t g gs)
      ⟨sh.withGroups (sh.groups.enter (.produced g)),[.waitForGet t g gs],[.doProduceAsyncImpl g]⟩
  | waitForGet (t : Worker L D) (g : Wrapper L D) (gs : List (Wrapper L D)) :
    Reacts job sh (.waitForGet t g gs)
      ⟨sh.withGroups (sh.groups.enter (.prefetch t.wrapper)),[.notifyGet t g gs],[]⟩
  | notifyGet (t : Worker L D) (g : Wrapper L D) (gs : List (Wrapper L D)) :
    Reacts job sh (.notifyGet t g gs)
      ⟨sh,[.notify (.produced g) (.doneWithGet t.wrapper),.prefetch t gs],[]⟩
  | alreadyProduced (label : L) (product : D) (ran : sh.wasRun (.producer label product) = true) :
    Reacts job sh (.doProduceAsyncImpl (.producer label product))
      ⟨sh,[.leave (.produced (.producer label product))],[]⟩
  | doProduceAsyncImpl (label : L) (product : D) (unrun : sh.wasRun (.producer label product) = false) :
    Reacts job sh (.doProduceAsyncImpl (.producer label product))
      ⟨sh.withGroups (sh.groups.enter (.produced (.producer label product))),
        [.doPrefetchAndWork (.producer label product),.leave (.produced (.producer label product))],[]⟩
  | notifyNow (g : GroupId L D) (b : Block L D) (empty : sh.groups.count g = 0) :
    Reacts job sh (.notify g b) ⟨sh,[],[.block b]⟩
  | notify (g : GroupId L D) (b : Block L D) (busy : sh.groups.count g ≠ 0) :
    Reacts job sh (.notify g b) ⟨sh,[],[.notified g (sh.groups.emptied g) b]⟩
  | notified (g : GroupId L D) (since : Nat) (b : Block L D) (became : since < sh.groups.emptied g) :
    Reacts job sh (.notified g since b) ⟨sh,[.block b],[]⟩
  | doneWithGet (w : Wrapper L D) : Reacts job sh (.block (.doneWithGet w)) ⟨sh,[.leave (.prefetch w)],[]⟩
  | scheduleCallback : Reacts job sh (.block .scheduleCallback)
    ⟨{sh with called := sh.called ++ [!sh.fatalJobErrorOccured]},[],[]⟩
  | addTask (t : Worker L D) (task : Task L D)
    (kind : task = if isUnsafe job t.wrapper then Task.suspendRunQueue t else .doWorkTask t) :
    Reacts job sh (.block (.work t)) ⟨sh.addTask task,[],[sh.waits task]⟩
  | leave (g : GroupId L D) : Reacts job sh (.leave g) ⟨sh.withGroups (sh.groups.leave g),[],[]⟩
  | queued (turn : Nat) (task : Task L D) (queues : DispatchQueues (QueueId L D))
    (began : sh.queues.start task.queue turn = some queues) :
    Reacts job sh (.queued turn task) ⟨sh.withQueues queues,[.task task],[]⟩
  | doWorkTask (t : Worker L D) : Reacts job sh (.task (.doWorkTask t)) ⟨sh,[.doWork t false],[]⟩
  | suspendRunQueue (t : Worker L D) : Reacts job sh (.task (.suspendRunQueue t))
    ⟨sh.withQueues (sh.queues.suspend (.runQueue t.wrapper)),[.addUnsafe t],[]⟩
  | addUnsafe (t : Worker L D) : Reacts job sh (.addUnsafe t)
    ⟨sh.addTask (.suspendUnsafeQueue t),[.taskEnds (.runQueue t.wrapper)],[sh.waits (.suspendUnsafeQueue t)]⟩
  | suspendUnsafeQueue (t : Worker L D) : Reacts job sh (.task (.suspendUnsafeQueue t))
    ⟨sh.withQueues (sh.queues.suspend .nonThreadSafe),[.addWork t],[]⟩
  | addWork (t : Worker L D) : Reacts job sh (.addWork t) ⟨sh,[.taskEnds .nonThreadSafe],[.doWork t false]⟩
  | taskEnds (q : QueueId L D) : Reacts job sh (.taskEnds q) ⟨sh.withQueues (sh.queues.finish q),[],[]⟩
  | workDone (t : Worker L D) (direct : Bool) (ran : sh.wasRun t.wrapper = true) :
    Reacts job sh (.doWork t direct) ⟨sh,[.worked t direct],[]⟩
  | doWork (t : Worker L D) (direct : Bool) (unrun : sh.wasRun t.wrapper = false) :
    Reacts job sh (.doWork t direct) ⟨sh,[.body t direct (job.getters t.wrapper) []],[]⟩
  | get (t : Worker L D) (direct : Bool) (g : Wrapper L D) (gs : List (Wrapper L D)) (values : List Int)
    (there : sh.wasCached g = true) : Reacts job sh (.body t direct (g :: gs) values)
      ⟨sh,[.body t direct gs (values ++ [sh.get g])],[]⟩
  | body (t : Worker L D) (direct : Bool) (values : List Int) (seed : Nat)
    (returned : (job.perform t.wrapper seed sh.eventIndex values).thrown = none) :
    Reacts job sh (.body t direct [] values)
      ⟨sh.ran t (job.perform t.wrapper seed sh.eventIndex values),
        [.put t direct (t.puts (job.perform t.wrapper seed sh.eventIndex values))],[]⟩
  | putsDone (t : Worker L D) (direct : Bool) : Reacts job sh (.put t direct []) ⟨sh,[.setWasRun t direct],[]⟩
  | put (label : L) (product : D) (direct : Bool) (put : D × Int) (puts : List (D × Int))
    (known : (job.find label put.1).isSome = true) :
    Reacts job sh (.put (.producer label product) direct (put :: puts))
      ⟨sh.setValue label put.1 put.2,[.put (.producer label product) direct puts],[]⟩
  | setWasRun (t : Worker L D) (direct : Bool) :
    Reacts job sh (.setWasRun t direct) ⟨sh.setWasRun t.wrapper,[.worked t direct],[]⟩
  | worked (t : Worker L D) (direct : Bool) : Reacts job sh (.worked t direct)
    ⟨sh,sh.informs t :: if direct then [] else [.workEnds t],[]⟩
  | unsafeEnds (t : Worker L D) (kind : isUnsafe job t.wrapper = true) : Reacts job sh (.workEnds t)
    ⟨sh.withQueues (sh.queues.resume .nonThreadSafe),[.resumeRunQueue t],[]⟩
  | workEnds (t : Worker L D) (kind : isUnsafe job t.wrapper = false) : Reacts job sh (.workEnds t)
    ⟨sh.withQueues (sh.queues.finish (.runQueue t.wrapper)),[],[]⟩
  | resumeRunQueue (t : Worker L D) : Reacts job sh (.resumeRunQueue t)
    ⟨sh.withQueues (sh.queues.resume (.runQueue t.wrapper)),[],[]⟩
  | noSuccess (p i : Nat) (keep : Bool) : Reacts job sh (.doNextIfSuccess p i keep false)
    ⟨sh,[.pathCallback false,.doNextIfSuccess p i keep true],[]⟩
  | nextFilter (p i : Nat) (calm : sh.fatalJobErrorOccured = false) (more : i + 1 < (job.path p).length) :
    Reacts job sh (.doNextIfSuccess p i true true) ⟨sh,[.runFilterAsync p (i + 1)],[]⟩
  | pathEnds (p i : Nat) (keep : Bool)
    (last : sh.fatalJobErrorOccured = true ∨ keep = false ∨ (job.path p).length ≤ i + 1) :
    Reacts job sh (.doNextIfSuccess p i keep true) ⟨sh,[.pathCallback true],[]⟩
  | pathCallback (success : Bool) : Reacts job sh (.pathCallback success)
    ⟨{sh with fatalJobErrorOccured := sh.fatalJobErrorOccured || !success},[.leave .allPathsDone],[]⟩

theorem react_reacts {job : Job L D E} {sh : Shared L D E} {f : Frame L D E} {seed : Nat}
    {r : Reaction (Shared L D E) (Frame L D E)} (reacted : react job sh f seed = some r) : Reacts job sh f r := by
  cases f with
  | process ps =>
    cases ps with
    | nil =>
      simp only [react] at reacted
      split at reacted <;> cases reacted
      · exact .noPaths ‹_›
      · exact .launched ‹_›
    | cons p ps =>
      cases reacted
      exact .process p ps
  | processPresentPath p =>
    simp only [react] at reacted
    split at reacted <;> cases reacted
    · exact .absentPath p ‹_›
    · exact .presentPath p (Bool.eq_false_of_not_eq_true ‹_›)
  | runAsync p =>
    cases reacted
    by_cases empty : job.path p = []
    · rw [if_pos empty]
      exact .emptyPath p empty
    · rw [if_neg empty]
      exact .runAsync p empty
  | runFilterAsync p i =>
    simp only [react] at reacted
    split at reacted
    · cases reacted
      exact .skipFilter p i ‹_›
    · rename_i calm
      have calm := Bool.eq_false_of_not_eq_true calm
      split at reacted
      · cases reacted
      · split at reacted <;> cases reacted
        · exact .filterDone p i _ calm ‹_› ‹_›
        · exact .filterAsync p i _ calm ‹_› (Bool.eq_false_of_not_eq_true ‹_›)
  | doPrefetchAndWork t =>
    simp only [react] at reacted
    split at reacted <;> cases reacted
    rename_i known
    exact .doPrefetchAndWork t (by simpa [Option.isSome_iff_ne_none] using known)
  | requestPrefetch t =>
    simp only [react] at reacted
    split at reacted <;> cases reacted
    · exact .requested t ‹_›
    · rename_i neither
      rw [not_or] at neither
      exact .requestPrefetch t neither.1 (Bool.eq_false_of_not_eq_true neither.2)
  | prefetch t gs =>
    cases gs with
    | nil =>
      cases reacted
      exact .prefetched t
    | cons g gs =>
      simp only [react] at reacted
      split at reacted
      · cases reacted
      · rename_i known
        have known : (job.module g).isSome = true := by simpa [Option.isSome_iff_ne_none] using known
        split at reacted <;> cases reacted
        · exact .cached t g gs known ‹_›
        · exact .getAsync t g gs known (Bool.eq_false_of_not_eq_true ‹_›)
  | doProduceAsync t g gs =>
    cases reacted
    cases ran : sh.wasRun g with
    | true => exact .produceDone t g gs ran
    | false => exact .doProduceAsync t g gs ran
  | doProduceAsyncImpl g =>
    cases g with
    | filter label => cases reacted
    | producer label product =>
      simp only [react,producerOf] at reacted
      split at reacted <;> cases reacted
      · exact .alreadyProduced label product ‹_›
      · exact .doProduceAsyncImpl label product (Bool.eq_false_of_not_eq_true ‹_›)
  | notify g b =>
    simp only [react] at reacted
    split at reacted <;> cases reacted
    · exact .notifyNow g b ‹_›
    · exact .notify g b ‹_›
  | notified g since b =>
    simp only [react] at reacted
    split at reacted <;> cases reacted
    exact .notified g since b ‹_›
  | block b =>
    cases b with
    | work t =>
      cases reacted
      exact .addTask t _ rfl
    | doneWithGet w =>
      cases reacted
      exact .doneWithGet w
    | scheduleCallback =>
      cases reacted
      exact .scheduleCallback
  | queued turn task =>
    obtain ⟨queues,began,rfl⟩ := Option.map_eq_some_iff.mp reacted
    exact .queued turn task queues began
  | task task =>
    cases task <;> cases reacted
    · exact .doWorkTask _
    · exact .suspendRunQueue _
    · exact .suspendUnsafeQueue _
  | doWork t direct =>
    simp only [react] at reacted
    split at reacted <;> cases reacted
    · exact .workDone t direct ‹_›
    · exact .doWork t direct (Bool.eq_false_of_not_eq_true ‹_›)
  | body t direct gs values =>
    cases gs with
    | nil =>
      simp only [react] at reacted
      split at reacted <;> cases reacted
      rename_i returned
      exact .body t direct values seed (by simpa using returned)
    | cons g gs =>
      simp only [react] at reacted
      split at reacted <;> cases reacted
      exact .get t direct g gs values ‹_›
  | put t direct puts =>
    cases puts with
    | nil =>
      cases reacted
      exact .putsDone t direct
    | cons put puts =>
      cases t with
      | filterOnPath p i label => cases reacted
      | producer label product =>
        simp only [react] at reacted
        split at reacted <;> cases reacted
        rename_i known
        exact .put label product direct put puts (by simpa [Option.isSome_iff_ne_none] using known)
  | workEnds t =>
    simp only [react] at reacted
    split at reacted <;> cases reacted
    · exact .unsafeEnds t ‹_›
    · exact .workEnds t (Bool.eq_false_of_not_eq_true ‹_›)
  | doNextIfSuccess p i keep success =>
    cases success with
    | false =>
      cases reacted
      exact .noSuccess p i keep
    | true =>
      simp only [react] at reacted
      split at reacted <;> cases reacted
      · rename_i goes
        obtain ⟨calm,kept,more⟩ := goes
        obtain rfl : keep = true := kept
        exact .nextFilter p i (Bool.eq_false_of_not_eq_true calm) more
      · rename_i stops
        refine .pathEnds p i keep ?_
        cases fatal : sh.fatalJobErrorOccured <;> cases keep <;> simp [fatal] at stops ⊢
        exact stops
  | produceAsync t g gs | waitForGet t g gs | notifyGet t g gs =>
    cases reacted
    constructor
  | leave g =>
    cases reacted
    exact .leave g
  | addUnsafe t | addWork t | resumeRunQueue t =>
    cases reacted
    constructor
  | taskEnds q =>
    cases reacted
    exact .taskEnds q
  | setWasRun t direct | worked t direct =>
    cases reacted
    constructor
  | pathCallback success =>
    cases reacted
    exact .pathCallback success

end ToyMtFramework.DispatchSchedule
