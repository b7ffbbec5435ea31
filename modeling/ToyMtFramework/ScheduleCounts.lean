import ToyMtFramework.ScheduleReactions
import Mathlib.Data.List.Count
import Mathlib.Tactic.SplitIfs

/-! Who holds which task of a `Schedule`, and how far each module and path is.
The invariants count frames: a reference count is the number of frames that own the
task, a started module is at exactly one place between its start and the release of
its waiting tasks, and so is each path and the task that runs when all are done. -/
namespace ToyMtFramework.Schedule
open Activities Transition

variable {L D E : Type} [DecidableEq L] [DecidableEq D]

def owns (t : TaskId L D) : Frame L D E → Nat
  | .launch _ | .runAsync _ => if t = .allPathsDone then 1 else 0
  | .doWorkAsync _ u | .doneWaitingTask u _ | .decrement u | .node _ u => if t = u then 1 else 0
  | .prefetch w _ => if t = .runModule w then 1 else 0
  | _ => 0

/-- Module `w` is between the last release of its prefetches and `doneWaiting`. -/
def working (w : Wrapper L D) : Frame L D E → Nat
  | .execute t => if .runModule w = t then 1 else 0
  | .queued v _ | .runModule v _ | .body v _ _ => if w = v then 1 else 0
  | .doneWaiting l _ => if .waitingTasks w = l then 1 else 0
  | _ => 0

def starting (w : Wrapper L D) : Frame L D E → Nat
  | .startWork v _ => if w = v then 1 else 0
  | _ => 0

def waits (l : ListId L D) : Frame L D E → Nat
  | .node m _ => if l = m then 1 else 0
  | _ => 0

/-- Path `p` of `n` paths has not reset its callback yet. -/
def pending (n p : Nat) : Frame L D E → Nat
  | .runPaths => if p < n then 1 else 0
  | .launch ps => ps.count p
  | .runAsync q => if p = q then 1 else 0
  | _ => 0

/-- Path `p` is acting: its next filter is not being waited for. -/
def acting (p : Nat) : Frame L D E → Nat
  | .runFilterAsync q _ | .filterFinished q _ _ => if p = q then 1 else 0
  | .execute t => if .nextFilter p = t then 1 else 0
  | .doneWaiting l _ => if .callback p = l then 1 else 0
  | _ => 0

def ending : Frame L D E → Nat
  | .runPaths | .callback _ => 1
  | .execute t => if .allPathsDone = t then 1 else 0
  | _ => 0

def Shared.settled (sh : Shared L D E) (l : ListId L D) : Nat :=
  if (sh.list l).waiting then 0 else 1

structure Counts (job : Job L D E) (sh : Shared L D E) (bag : Multiset (Frame L D E)) : Prop where
  owners : ∀ t, sh.refCount t = weigh (owns t) bag
  modules : ∀ w, min 1 (sh.refCount (.runModule w)) + weigh (working w) bag +
    sh.settled (.waitingTasks w) = if sh.workStarted w then 1 else 0
  paths : ∀ p, weigh (pending job.paths.length p) bag + min 1 (sh.refCount (.nextFilter p)) +
    weigh (acting p) bag + (if weigh (pending job.paths.length p) bag = 0 ∧ p < job.paths.length
      then sh.settled (.callback p) else 0) = if p < job.paths.length then 1 else 0
  schedule : weigh ending bag + min 1 (sh.refCount .allPathsDone) + sh.released.length = 1
  waiters : ∀ w, (sh.list (.waitingTasks w)).waiting = true →
    weigh (starting w) bag + (if sh.workStarted w then 1 else 0) ≤ weigh (waits (.waitingTasks w)) bag
  requested : ∀ w, 0 < weigh (waits (.waitingTasks w)) bag →
    sh.workStarted w = true ∨ 0 < weigh (starting w) bag
  callbacks : ∀ p, (sh.list (.callback p)).waiting = true → (if p < job.paths.length then 1 else 0) ≤
    weigh (pending job.paths.length p) bag + weigh (waits (.callback p)) bag
  unopened : ∀ p, 0 < weigh (pending job.paths.length p) bag → weigh (waits (.callback p)) bag = 0

section Steps
variable {job : Job L D E} {sh : Shared L D E} {f : Frame L D E}
  {r : Reaction (Shared L D E) (Frame L D E)} {rest : Multiset (Frame L D E)}

theorem owners_react {t : TaskId L D} {others : Nat} (before : sh.refCount t = owns t f + others)
    (reacts : Reacts job sh f r) : r.shared.refCount t = weigh (owns t) r.frames + others := by
  cases reacts <;>
    simp [owns,Shared.hold,Shared.drop,Shared.setList,Shared.setIndex,Shared.request,
      Shared.start,Shared.dependentTaskFailed,Shared.fail,Shared.finish] at before ⊢ <;> omega

/-- The end of the round is up to one frame, or to the holders of `AllPathsDoneTask`, until
its callback is released. -/
theorem ending_react {others : Nat}
    (owners : sh.refCount .allPathsDone = owns .allPathsDone f + others)
    (single : ending f + min 1 (sh.refCount .allPathsDone) ≤ 1) (reacts : Reacts job sh f r) :
    weigh ending r.frames + min 1 (r.shared.refCount .allPathsDone) + r.shared.released.length =
      ending f + min 1 (sh.refCount .allPathsDone) + sh.released.length := by
  cases reacts <;>
    simp [owns,ending,Shared.hold,Shared.drop,Shared.setList,Shared.setIndex,Shared.request,
      Shared.start,Shared.dependentTaskFailed,Shared.fail,Shared.finish] at owners single ⊢ <;> grind

/-- What a frame does not do for the module leaves it where it is. -/
theorem modules_keep {after : Shared L D E} {frames : Multiset (Frame L D E)} {w : Wrapper L D}
    (counts : Counts job sh (f ::ₘ rest))
    (refCount : after.refCount (.runModule w) = sh.refCount (.runModule w))
    (work : weigh (working w) frames = working w f)
    (list : after.list (.waitingTasks w) = sh.list (.waitingTasks w))
    (workStarted : after.workStarted w = sh.workStarted w) :
    min 1 (after.refCount (.runModule w)) + weigh (working w) (frames + rest) +
      after.settled (.waitingTasks w) = if after.workStarted w then 1 else 0 := by
  have before := counts.modules w
  rw [weigh_cons] at before
  rw [weigh_add,work,refCount,workStarted,Shared.settled,list]
  exact before

/-- A module goes from its start over the last release of its prefetches, its queue
and its body to the release of its waiting tasks. -/
theorem modules_react (counts : Counts job sh (f ::ₘ rest)) (reacts : Reacts job sh f r)
    (w : Wrapper L D) : min 1 (r.shared.refCount (.runModule w)) + weigh (working w) (r.frames + rest) +
      r.shared.settled (.waitingTasks w) = if r.shared.workStarted w then 1 else 0 := by
  have before := counts.modules w
  have owners := counts.owners (.runModule w)
  cases reacts with
  | startWork v added started =>
    by_cases same : w = v
    · -- It was nowhere, and is held by its own prefetching from now on.
      subst v
      simp [working,Shared.settled,started] at before
      simp [working,Shared.settled,Shared.start,Shared.hold]
      grind
    · exact modules_keep counts (by simp [Shared.start,Shared.hold,same]) rfl rfl
        (Function.update_of_ne same _ _)
  | prefetch v g gs =>
    by_cases same : w = v
    · -- Its prefetching holds it already.
      subst v
      simp [owns] at owners
      simp [working,Shared.settled] at before
      simp [working,Shared.settled,Shared.hold]
      grind
    · exact modules_keep counts (by simp [Shared.hold,same]) rfl rfl rfl
  | decrementLast t last =>
    by_cases same : .runModule w = t
    · subst t
      simp [working,Shared.settled,last] at before
      simp [working,Shared.settled,Shared.drop,last]
      grind
    · exact modules_keep counts (by simp [Shared.drop,same]) (by simp [working,same]) rfl rfl
  | decrement t more =>
    by_cases same : .runModule w = t
    · subst t
      simp [owns] at owners
      simp [working,Shared.settled] at before
      simp [Shared.settled,Shared.drop]
      grind
    · exact modules_keep counts (by simp [Shared.drop,same]) rfl rfl rfl
  | doneWaiting l e =>
    by_cases same : .waitingTasks w = l
    · -- It was at this place, and so its list was not settled before.
      subst l
      simp [working,Shared.settled] at before
      simp [Shared.settled,Shared.setList]
      grind
    · exact modules_keep counts rfl (by simp [working,same]) (Function.update_of_ne same _ _) rfl
  | runPaths | launch | runFilter => exact modules_keep counts (Nat.add_zero _) rfl rfl rfl
  | runEmpty p | runAsync p =>
    have apart : (.waitingTasks w : ListId L D) ≠ .callback p := nofun
    have list (value : WaitingList E) : (sh.setList (.callback p) value).list (.waitingTasks w) =
        sh.list (.waitingTasks w) :=
      Function.update_of_ne apart value sh.list
    exact modules_keep counts rfl rfl (list _) rfl
  | executeQueued v | executeModule v | moduleFailed v | body v =>
    exact modules_keep counts rfl (by simp [working]) rfl rfl
  | _ => exact modules_keep counts rfl rfl rfl rfl

/-- What a frame does not do for the path leaves it where it is. -/
theorem paths_keep {after : Shared L D E} {frames : Multiset (Frame L D E)} {p : Nat}
    (counts : Counts job sh (f ::ₘ rest))
    (before : weigh (pending job.paths.length p) frames = pending job.paths.length p f)
    (refCount : after.refCount (.nextFilter p) = sh.refCount (.nextFilter p))
    (active : weigh (acting p) frames = acting p f)
    (list : after.list (.callback p) = sh.list (.callback p)) :
    weigh (pending job.paths.length p) (frames + rest) + min 1 (after.refCount (.nextFilter p)) +
      weigh (acting p) (frames + rest) +
      (if weigh (pending job.paths.length p) (frames + rest) = 0 ∧ p < job.paths.length
        then after.settled (.callback p) else 0) = if p < job.paths.length then 1 else 0 := by
  have paths := counts.paths p
  rw [weigh_cons,weigh_cons] at paths
  rw [weigh_add,weigh_add,before,active,refCount,Shared.settled,list]
  exact paths

/-- A path waits to be launched, acts, has its next filter waited for, or is settled. -/
theorem paths_react (counts : Counts job sh (f ::ₘ rest)) (reacts : Reacts job sh f r) (p : Nat) :
    weigh (pending job.paths.length p) (r.frames + rest) +
      min 1 (r.shared.refCount (.nextFilter p)) + weigh (acting p) (r.frames + rest) +
      (if weigh (pending job.paths.length p) (r.frames + rest) = 0 ∧ p < job.paths.length
        then r.shared.settled (.callback p) else 0) = if p < job.paths.length then 1 else 0 := by
  have before := counts.paths p
  have owners := counts.owners (.nextFilter p)
  cases reacts with
  | runNoPaths empty => exact paths_keep counts (by simp [pending,empty]) rfl rfl rfl
  | runPaths nonempty =>
    have all : (List.range job.paths.length).count p = if p < job.paths.length then 1 else 0 := by
      rw [List.nodup_range.count]
      simp only [List.mem_range]
    exact paths_keep counts (by simp [pending,all]) (Nat.add_zero _) rfl rfl
  | launch q ps =>
    have next : (q :: ps).count p = (if p = q then 1 else 0) + ps.count p := by
      rw [List.count_cons,Nat.add_comm]
      by_cases same : p = q
      · simp [same]
      · simp [same,Ne.symm same]
    exact paths_keep counts (by simp [pending,next]) (Nat.add_zero _) rfl rfl
  | runEmpty q | runAsync q =>
    by_cases same : p = q
    · -- It acts from now on, and its callback is open again.
      subst q
      simp [pending,acting] at before
      simp [pending,acting,Shared.settled,Shared.setList]
      grind
    · exact paths_keep counts (by simp [pending,same]) rfl (by simp [acting,same])
        (Function.update_of_ne (by simp [same]) _ _)
  | runFilter q i label fatal at_i =>
    by_cases same : p = q
    · subst q
      simp [pending,acting,Shared.settled] at before
      simp [pending,acting,Shared.settled,Shared.setIndex,Shared.hold]
      grind
    · exact paths_keep counts rfl (by simp [Shared.hold,Shared.setIndex,same]) (by simp [acting,same]) rfl
  | decrementLast t last =>
    by_cases same : .nextFilter p = t
    · subst t
      simp [pending,acting,Shared.settled,last] at before
      simp [pending,acting,Shared.settled,Shared.drop,last]
      grind
    · exact paths_keep counts rfl (by simp [Shared.drop,same]) (by simp [acting,same]) rfl
  | decrement t more =>
    by_cases same : .nextFilter p = t
    · subst t
      simp [owns] at owners
      simp [pending,acting,Shared.settled] at before
      simp [Shared.settled,Shared.drop]
      grind
    · exact paths_keep counts rfl (by simp [Shared.drop,same]) rfl rfl
  | doneWaiting l e =>
    by_cases same : .callback p = l
    · subst l
      simp [pending,acting,Shared.settled] at before
      simp [Shared.settled,Shared.setList]
      grind
    · exact paths_keep counts rfl rfl (by simp [acting,same]) (Function.update_of_ne same _ _)
  | startWork | prefetch => exact paths_keep counts rfl (Nat.add_zero _) rfl rfl
  | runFatal | executeFilter | filterPassed | filterStopped => 
    exact paths_keep counts rfl rfl (by simp [acting]) rfl
  | _ => exact paths_keep counts rfl rfl rfl rfl

theorem schedule_react (counts : Counts job sh (f ::ₘ rest)) (reacts : Reacts job sh f r) :
    weigh ending (r.frames + rest) + min 1 (r.shared.refCount .allPathsDone) +
      r.shared.released.length = 1 := by
  have owners := counts.owners .allPathsDone
  have before := counts.schedule
  rw [weigh_cons] at owners before
  have ends := ending_react owners (by omega) reacts
  rw [weigh_add]
  omega

theorem waiters_react (counts : Counts job sh (f ::ₘ rest)) (reacts : Reacts job sh f r)
    (w : Wrapper L D) (waiting : (r.shared.list (.waitingTasks w)).waiting = true) :
    weigh (starting w) (r.frames + rest) + (if r.shared.workStarted w then 1 else 0) ≤
      weigh (waits (.waitingTasks w)) (r.frames + rest) := by
  have before := counts.waiters w
  cases reacts <;>
    simp [starting,waits,Shared.hold,Shared.drop,Shared.setList,Shared.setIndex,Shared.request,
      Shared.start,Shared.dependentTaskFailed,Shared.fail,Shared.finish,Function.update_apply]
      at before waiting ⊢ <;> grind

theorem requested_react (counts : Counts job sh (f ::ₘ rest)) (reacts : Reacts job sh f r)
    (w : Wrapper L D) (waited : 0 < weigh (waits (.waitingTasks w)) (r.frames + rest)) :
    r.shared.workStarted w = true ∨ 0 < weigh (starting w) (r.frames + rest) := by
  have before := counts.requested w
  cases reacts <;>
    simp [starting,waits,Shared.hold,Shared.drop,Shared.setList,Shared.setIndex,Shared.request,
      Shared.start,Shared.dependentTaskFailed,Shared.fail,Shared.finish,Function.update_apply]
      at before waited ⊢ <;> grind

theorem callbacks_react (counts : Counts job sh (f ::ₘ rest)) (reacts : Reacts job sh f r) (p : Nat)
    (waiting : (r.shared.list (.callback p)).waiting = true) :
    (if p < job.paths.length then 1 else 0) ≤ weigh (pending job.paths.length p) (r.frames + rest) +
      weigh (waits (.callback p)) (r.frames + rest) := by
  have before := counts.callbacks p
  cases reacts <;>
    simp [pending,waits,Shared.hold,Shared.drop,Shared.setList,Shared.setIndex,
      Shared.request,Shared.start,Shared.dependentTaskFailed,Shared.fail,Shared.finish,
      Function.update_apply,List.count_cons] at before waiting ⊢ <;> grind

theorem unopened_react (counts : Counts job sh (f ::ₘ rest)) (reacts : Reacts job sh f r) (p : Nat)
    (unopened : 0 < weigh (pending job.paths.length p) (r.frames + rest)) :
    weigh (waits (.callback p)) (r.frames + rest) = 0 := by
  have before := counts.unopened p
  have paths := counts.paths p
  cases reacts <;>
    simp [pending,waits,List.count_cons] at before paths unopened ⊢ <;> grind

theorem Counts.owners_react (counts : Counts job sh (f ::ₘ rest)) (reacts : Reacts job sh f r)
    (t : TaskId L D) : r.shared.refCount t = weigh (owns t) (r.frames + rest) := by
  have before := counts.owners t
  rw [weigh_cons] at before
  rw [weigh_add]
  exact Schedule.owners_react before reacts

theorem Counts.react (counts : Counts job sh (f ::ₘ rest)) (reacts : Reacts job sh f r) :
    Counts job r.shared (r.frames + rest) :=
  ⟨counts.owners_react reacts,modules_react counts reacts,paths_react counts reacts,
    schedule_react counts reacts,waiters_react counts reacts,requested_react counts reacts,
    callbacks_react counts reacts,unopened_react counts reacts⟩

end Steps

end ToyMtFramework.Schedule
