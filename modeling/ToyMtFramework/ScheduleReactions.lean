import ToyMtFramework.Schedule

/-! What the frames of a `Schedule` can do, branch by branch. Every invariant of the
machine is proved by cases on these reactions. -/
namespace ToyMtFramework.Schedule
open Activities

variable {L D E : Type} [DecidableEq L] [DecidableEq D]

inductive Reacts (job : Job L D E) (sh : Shared L D E) :
    Frame L D E → Reaction (Shared L D E) (Frame L D E) → Prop
  | runNoPaths (empty : job.paths = []) : Reacts job sh .runPaths ⟨sh,[.callback none],[]⟩
  | runPaths (nonempty : job.paths ≠ []) :
      Reacts job sh .runPaths ⟨sh.hold .allPathsDone,[.launch (List.range job.paths.length)],[]⟩
  | launched : Reacts job sh (.launch []) ⟨sh,[.decrement .allPathsDone],[]⟩
  | launch (p : Nat) (ps : List Nat) :
      Reacts job sh (.launch (p :: ps)) ⟨sh.hold .allPathsDone,[.runAsync p,.launch ps],[]⟩
  | runEmpty (p : Nat) (empty : job.path p = []) : Reacts job sh (.runAsync p)
      ⟨sh.setList (.callback p) ⟨true,none⟩,[.doneWaiting (.callback p) none],
        [.node (.callback p) .allPathsDone]⟩
  | runAsync (p : Nat) (nonempty : job.path p ≠ []) : Reacts job sh (.runAsync p)
      ⟨sh.setList (.callback p) ⟨true,none⟩,[.runFilterAsync p 0],[.node (.callback p) .allPathsDone]⟩
  | runFatal (p i : Nat) (fatal : sh.fatal = true) :
      Reacts job sh (.runFilterAsync p i) ⟨sh,[.doneWaiting (.callback p) none],[]⟩
  | runFilter (p i : Nat) (label : L) (fatal : sh.fatal = false) (at_i : (job.path p)[i]? = some label) :
      Reacts job sh (.runFilterAsync p i)
        ⟨(sh.setIndex p i).hold (.nextFilter p),[.doWorkAsync (.filter label) (.nextFilter p)],[]⟩
  | add (w : Wrapper L D) (t : TaskId L D) (known : (job.module w).isSome = true)
      (waiting : (sh.list (.waitingTasks w)).waiting = true) : Reacts job sh (.doWorkAsync w t)
        ⟨sh.request w t,[.startWork w (sh.resets w)],[.node (.waitingTasks w) t]⟩
  | addLate (w : Wrapper L D) (t : TaskId L D) (known : (job.module w).isSome = true)
      (waiting : (sh.list (.waitingTasks w)).waiting = false) : Reacts job sh (.doWorkAsync w t)
        ⟨sh.request w t,[.doneWaitingTask t (sh.list (.waitingTasks w)).exceptionPtr,
          .startWork w (sh.resets w)],[]⟩
  | startRefused (w : Wrapper L D) (added : Nat) (started : sh.workStarted w = true) :
      Reacts job sh (.startWork w added) ⟨sh,[],[]⟩
  | startWork (w : Wrapper L D) (added : Nat) (started : sh.workStarted w = false) :
      Reacts job sh (.startWork w added)
        ⟨(sh.start w added).hold (.runModule w),[.prefetch w (job.getters w)],[]⟩
  | prefetched (w : Wrapper L D) :
      Reacts job sh (.prefetch w []) ⟨sh,[.decrement (.runModule w)],[]⟩
  | prefetch (w g : Wrapper L D) (gs : List (Wrapper L D)) : Reacts job sh (.prefetch w (g :: gs))
      ⟨sh.hold (.runModule w),[.doWorkAsync g (.runModule w),.prefetch w gs],[]⟩
  | doneWaitingTask (t : TaskId L D) (e : Option E) :
      Reacts job sh (.doneWaitingTask t e) ⟨sh.dependentTaskFailed t e,[.decrement t],[]⟩
  | decrementLast (t : TaskId L D) (last : sh.refCount t = 1) :
      Reacts job sh (.decrement t) ⟨sh.drop t,[],[.execute t]⟩
  | decrement (t : TaskId L D) (more : sh.refCount t ≠ 1) :
      Reacts job sh (.decrement t) ⟨sh.drop t,[],[]⟩
  | node (l : ListId L D) (t : TaskId L D) (waiting : (sh.list l).waiting = false) :
      Reacts job sh (.node l t) ⟨sh,[.doneWaitingTask t (sh.list l).exceptionPtr],[]⟩
  | executeQueued (w : Wrapper L D) (queue : job.hasQueue w = true) :
      Reacts job sh (.execute (.runModule w)) ⟨sh,[],[.queued w (sh.exceptionPtr (.runModule w))]⟩
  | executeModule (w : Wrapper L D) (queue : job.hasQueue w = false) :
      Reacts job sh (.execute (.runModule w)) ⟨sh,[.runModule w (sh.exceptionPtr (.runModule w))],[]⟩
  | executeFilter (p : Nat) : Reacts job sh (.execute (.nextFilter p))
      ⟨sh,[.filterFinished p (sh.index p) (sh.exceptionPtr (.nextFilter p))],[]⟩
  | executeFailed (e : E) (failed : sh.exceptionPtr .allPathsDone = some e) :
      Reacts job sh (.execute .allPathsDone) ⟨sh.fail,[.callback (some e)],[]⟩
  | executeDone (succeeded : sh.exceptionPtr .allPathsDone = none) :
      Reacts job sh (.execute .allPathsDone) ⟨sh,[.callback none],[]⟩
  | queued (w : Wrapper L D) (e : Option E) :
      Reacts job sh (.queued w e) ⟨sh,[.runModule w e],[]⟩
  | moduleFailed (w : Wrapper L D) (e : E) :
      Reacts job sh (.runModule w (some e)) ⟨sh,[.doneWaiting (.waitingTasks w) (some e)],[]⟩
  | runModule (w : Wrapper L D) :
      Reacts job sh (.runModule w none) ⟨sh,[.body w (job.getters w) []],[]⟩
  | read (w g : Wrapper L D) (gs : List (Wrapper L D)) (values : List Int) :
      Reacts job sh (.body w (g :: gs) values) ⟨sh,[.body w gs (values ++ [sh.get g])],[]⟩
  | body (w : Wrapper L D) (values : List Int) (seed : Nat) (outcome : Outcome D E)
      (performed : outcome = job.perform w seed sh.eventIndex values) :
      Reacts job sh (.body w [] values)
        ⟨sh.finish w outcome,[.doneWaiting (.waitingTasks w) outcome.thrown],[]⟩
  | doneWaiting (l : ListId L D) (e : Option E) :
      Reacts job sh (.doneWaiting l e) ⟨sh.setList l ⟨false,e⟩,[],[]⟩
  | filterPassed (p i : Nat) (label : L) (at_i : (job.path p)[i]? = some label)
      (fatal : sh.fatal = false) (kept : sh.keep label = true) (more : i + 1 < (job.path p).length) :
      Reacts job sh (.filterFinished p i none) ⟨sh,[.runFilterAsync p (i + 1)],[]⟩
  | filterStopped (p i : Nat) (e : Option E) (label : L) (at_i : (job.path p)[i]? = some label)
      (stopped : e ≠ none ∨ sh.fatal = true ∨ sh.keep label = false ∨ i + 1 = (job.path p).length) :
      Reacts job sh (.filterFinished p i e) ⟨sh,[.doneWaiting (.callback p) e],[]⟩
  | callback (e : Option E) :
      Reacts job sh (.callback e) ⟨{sh with released := sh.released ++ [e]},[],[]⟩

theorem react_reacts {job : Job L D E} {sh : Shared L D E} {f : Frame L D E} {seed : Nat}
    {r : Reaction (Shared L D E) (Frame L D E)} (reacted : react job sh f seed = some r) :
    Reacts job sh f r := by
  unfold react at reacted
  split at reacted
  · split at reacted <;> cases reacted
    · exact .runNoPaths ‹_›
    · exact .runPaths ‹_›
  · cases reacted
    exact .launched
  · cases reacted
    exact .launch _ _
  · cases reacted
    split
    · exact .runEmpty _ ‹_›
    · exact .runAsync _ ‹_›
  · split at reacted
    · cases reacted
      exact .runFatal _ _ ‹_›
    · split at reacted <;> cases reacted
      exact .runFilter _ _ _ (by simpa using ‹¬sh.fatal = true›) ‹_›
  · split at reacted
    · cases reacted
    · rename_i w t unknown
      have known : (job.module w).isSome = true := by simpa [Option.isSome_iff_ne_none] using unknown
      split at reacted <;> cases reacted
      · exact .add _ _ known ‹_›
      · exact .addLate _ _ known (by simpa using ‹¬_ = true›)
  · split at reacted <;> cases reacted
    · exact .startRefused _ _ ‹_›
    · exact .startWork _ _ (by simpa using ‹¬_ = true›)
  · cases reacted
    exact .prefetched _
  · cases reacted
    exact .prefetch _ _ _
  · cases reacted
    exact .doneWaitingTask _ _
  · cases reacted
    split
    · exact .decrementLast _ ‹_›
    · exact .decrement _ ‹_›
  · split at reacted <;> cases reacted
    exact .node _ _ (by simpa using ‹¬_ = true›)
  · split at reacted <;> cases reacted
    · exact .executeQueued _ ‹_›
    · exact .executeModule _ (by simpa using ‹¬_ = true›)
  · cases reacted
    exact .executeFilter _
  · cases reacted
    cases failed : sh.exceptionPtr .allPathsDone with
    | none => exact .executeDone failed
    | some e => exact .executeFailed e failed
  · cases reacted
    exact .queued _ _
  · cases reacted
    exact .moduleFailed _ _
  · cases reacted
    exact .runModule _
  · cases reacted
    exact .read _ _ _ _
  · cases reacted
    exact .body _ _ seed _ rfl
  · cases reacted
    exact .doneWaiting _ _
  · split at reacted
    · cases reacted
    · rename_i p i e _ label at_i
      split at reacted <;> cases reacted
      · rename_i passed
        obtain ⟨succeeded,fatal,kept,more⟩ := passed
        obtain rfl : e = none := by simpa using succeeded
        exact .filterPassed p i label at_i (by simpa using fatal) kept more
      · rename_i stopped
        refine .filterStopped p i e label at_i ?_
        have inside : i < (job.path p).length := by
          obtain ⟨bound,_⟩ := List.getElem?_eq_some_iff.mp at_i
          exact bound
        by_contra running
        push Not at running
        obtain ⟨succeeded,fatal,kept,more⟩ := running
        exact stopped ⟨by simp [succeeded],fatal,by simpa using kept,by omega⟩
  · cases reacted
    exact .callback _

end ToyMtFramework.Schedule
