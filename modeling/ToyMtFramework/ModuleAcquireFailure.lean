import ToyMtFramework.ModuleAcquire
import Mathlib.Data.List.Count
import Mathlib.Tactic.SplitIfs

/-! What the waiting tasks are told about `implDoAcquire`. The module is at one place at a time
from its start to the release of its tasks, or held by its holders; what they have reported is
all that the continuation learns. -/
namespace ToyMtFramework.ModuleAcquire
open Activities Transition
open Schedule (ThreadType)

variable {E : Type}

inductive Reacts (sh : Shared E) : Frame E → Reaction (Shared E) (Frame E) → Prop
  | add (t : Nat) (waiting : sh.waiting = true) : Reacts sh (.doWorkAsync t) ⟨sh,[.startWork],[.node t]⟩
  | addLate (t : Nat) (waiting : sh.waiting = false) :
      Reacts sh (.doWorkAsync t) ⟨sh.release t,[.startWork],[]⟩
  | node (t : Nat) (waiting : sh.waiting = false) : Reacts sh (.node t) ⟨sh.release t,[],[]⟩
  | startRefused (started : sh.workStarted = true) : Reacts sh .startWork ⟨sh,[],[]⟩
  | startWork (started : sh.workStarted = false) :
      Reacts sh .startWork ⟨{sh with workStarted := true},[.prefetch],[]⟩
  | prefetch (e : Option E) : Reacts sh .prefetch ⟨{sh with prefetched := e},[],[.execute e]⟩
  | pushAcquire (e : Option E) : Reacts sh (.execute e) ⟨sh,[],[.queuedAcquire e]⟩
  | execute (e : Option E) : Reacts sh (.execute e) ⟨sh,[.runModuleAcquireAfterAsyncPrefetch e],[]⟩
  | queuedAcquire (e : Option E) :
      Reacts sh (.queuedAcquire e) ⟨sh,[.runModuleAcquireAfterAsyncPrefetch e],[]⟩
  | prefetchFailed (e : E) :
      Reacts sh (.runModuleAcquireAfterAsyncPrefetch (some e)) ⟨sh,[.doneWaiting (some e)],[]⟩
  | acquire : Reacts sh (.runModuleAcquireAfterAsyncPrefetch none) ⟨sh.hold,[.implDoAcquire true],[]⟩
  | copyOwn : Reacts sh (.implDoAcquire true) ⟨sh.hold,[.implDoAcquire true],[.holder]⟩
  | moveOwn : Reacts sh (.implDoAcquire true) ⟨sh,[.implDoAcquire false],[.holder]⟩
  | presetOwn (e : E) : Reacts sh (.implDoAcquire true)
      ⟨sh.dependentTaskFailed (some e),[.implDoAcquire true],[]⟩
  | reportOwn (e : Option E) :
      Reacts sh (.implDoAcquire true) ⟨sh,[.doneWaitingTask e,.implDoAcquire false],[]⟩
  | leaveOwn (e : Option E) :
      Reacts sh (.implDoAcquire true) ⟨{sh with thrown := e},[.doneWaitingTask none],[]⟩
  | leave (e : Option E) : Reacts sh (.implDoAcquire false) ⟨{sh with thrown := e},[],[]⟩
  | copy : Reacts sh .holder ⟨sh.hold,[.holder],[.holder]⟩
  | preset (e : E) : Reacts sh .holder ⟨sh.dependentTaskFailed (some e),[.holder],[]⟩
  | report (e : Option E) : Reacts sh .holder ⟨sh,[.doneWaitingTask e],[]⟩
  | doneWaitingTask (e : Option E) :
      Reacts sh (.doneWaitingTask e) ⟨sh.dependentTaskFailed e,[.decrement],[]⟩
  | decrementLast (last : sh.refCount = 1) :
      Reacts sh .decrement ⟨{sh with refCount := sh.refCount - 1},[],[.continuation]⟩
  | decrement (more : sh.refCount ≠ 1) :
      Reacts sh .decrement ⟨{sh with refCount := sh.refCount - 1},[],[]⟩
  | pushWork : Reacts sh .continuation ⟨sh,[],[.queuedWork sh.exceptionPtr]⟩
  | continuation : Reacts sh .continuation ⟨sh,[.runModuleAfterAsyncPrefetch sh.exceptionPtr],[]⟩
  | queuedWork (e : Option E) : Reacts sh (.queuedWork e) ⟨sh,[.runModuleAfterAsyncPrefetch e],[]⟩
  | failed (e : E) : Reacts sh (.runModuleAfterAsyncPrefetch (some e)) ⟨sh,[.doneWaiting (some e)],[]⟩
  | work (e : Option E) : Reacts sh (.runModuleAfterAsyncPrefetch none)
      ⟨{sh with worked := sh.worked + 1, workThrown := e},[.doneWaiting e],[]⟩
  | doneWaiting (e : Option E) :
      Reacts sh (.doneWaiting e) ⟨{sh with waiting := false, waitingException := e},[],[]⟩

theorem react_reacts {threadType : ThreadType} {sh : Shared E} {f : Frame E} {choice : Choice E}
    {r : Reaction (Shared E) (Frame E)} (reacted : react threadType sh f choice = some r) :
    Reacts sh f r := by
  unfold react at reacted
  split at reacted
  · split at reacted <;> cases reacted
    · exact .add _ ‹_›
    · exact .addLate _ (by simpa using ‹¬_ = true›)
  · split at reacted <;> cases reacted
    exact .node _ (by simpa using ‹¬_ = true›)
  · split at reacted <;> cases reacted
    · exact .startRefused ‹_›
    · exact .startWork (by simpa using ‹¬_ = true›)
  · cases reacted
    exact .prefetch _
  · split at reacted <;> cases reacted
    · exact .pushAcquire _
    · exact .execute _
  · cases reacted
    exact .queuedAcquire _
  · cases reacted
    exact .prefetchFailed _
  · cases reacted
    exact .acquire
  · cases reacted
    exact .copyOwn
  · cases reacted
    exact .moveOwn
  · cases reacted
    exact .presetOwn _
  · cases reacted
    exact .reportOwn _
  · cases reacted
    exact .leaveOwn _
  · cases reacted
    exact .leave _
  · cases reacted
    exact .copy
  · cases reacted
    exact .preset _
  · cases reacted
    exact .report _
  · cases reacted
    exact .doneWaitingTask _
  · cases reacted
    split
    · exact .decrementLast ‹_›
    · exact .decrement ‹_›
  · split at reacted <;> cases reacted
    · exact .pushWork
    · exact .continuation
  · cases reacted
    exact .queuedWork _
  · cases reacted
    exact .failed _
  · cases reacted
    exact .work _
  · cases reacted
    exact .doneWaiting _
  · cases reacted

def owns : Frame E → Nat
  | .implDoAcquire true | .holder | .doneWaitingTask _ | .decrement => 1
  | _ => 0

/-- The module is between its start and the end of `implDoWork`, and no holder has it. -/
def unfinished : Frame E → Nat
  | .prefetch | .execute _ | .queuedAcquire _ | .runModuleAcquireAfterAsyncPrefetch _
  | .continuation | .queuedWork _ | .runModuleAfterAsyncPrefetch _ => 1
  | _ => 0

def finishing : Frame E → Nat
  | .doneWaiting _ => 1
  | _ => 0

def early : Frame E → Nat
  | .prefetch | .execute _ | .queuedAcquire _ | .runModuleAcquireAfterAsyncPrefetch _ => 1
  | _ => 0

def acquiring : Frame E → Nat
  | .implDoAcquire _ => 1
  | _ => 0

def starting : Frame E → Nat
  | .startWork => 1
  | _ => 0

def waits : Frame E → Nat
  | .node _ => 1
  | _ => 0

def pending (t : Nat) : Frame E → Nat
  | .doWorkAsync u | .node u => if t = u then 1 else 0
  | _ => 0

def Shared.verdict (sh : Shared E) : Option E :=
  sh.prefetched.or (sh.exceptionPtr.or sh.workThrown)

def Shared.Finished (sh : Shared E) : Prop :=
  sh.prefetched = none → sh.exceptionPtr = none → sh.worked = 1

def Carries (sh : Shared E) : Frame E → Prop
  | .execute e | .queuedAcquire e | .runModuleAcquireAfterAsyncPrefetch e => e = sh.prefetched
  | .queuedWork e | .runModuleAfterAsyncPrefetch e => sh.prefetched = none ∧ e = sh.exceptionPtr
  | .continuation | .implDoAcquire _ | .holder | .doneWaitingTask _ | .decrement => sh.prefetched = none
  | .doneWaiting e => e = sh.verdict ∧ sh.Finished
  | _ => True

theorem early_le (f : Frame E) : early f ≤ unfinished f := by
  cases f <;> simp [early,unfinished]

theorem Carries.keep {sh after : Shared E} {f : Frame E} (carries : Carries sh f)
    (prefetched : after.prefetched = sh.prefetched) (exceptionPtr : after.exceptionPtr = sh.exceptionPtr)
    (worked : after.worked = sh.worked) (workThrown : after.workThrown = sh.workThrown) :
    Carries after f := by
  cases f <;> simp_all [Carries,Shared.verdict,Shared.Finished]

/-- A frame that is not at the module's place knows how the prefetches ended, if anything. -/
theorem Carries.change {sh after : Shared E} {f : Frame E} (carries : Carries sh f)
    (prefetched : after.prefetched = sh.prefetched) (elsewhere : unfinished f = 0 ∧ finishing f = 0) :
    Carries after f := by
  cases f <;> simp_all [Carries,unfinished,finishing]

theorem Carries.free {sh : Shared E} {f : Frame E} (elsewhere : unfinished f = 0 ∧ finishing f = 0)
    (unowned : owns f = 0) (outside : acquiring f = 0) : Carries sh f := by
  cases f <;> simp_all [Carries,unfinished,finishing,owns,acquiring]

structure Acquired (tasks : List Nat) (sh : Shared E) (bag : Multiset (Frame E)) : Prop where
  owners : sh.refCount = weigh owns bag
  place : weigh unfinished bag + weigh finishing bag + min 1 sh.refCount + (if sh.waiting then 0 else 1) =
    if sh.workStarted then 1 else 0
  worked : weigh unfinished bag + min 1 sh.refCount + sh.worked ≤ 1
  unacquired : sh.workStarted = false ∨ 0 < weigh early bag ∨ sh.prefetched ≠ none →
    sh.thrown = none ∧ sh.reported = [] ∧ sh.worked = 0 ∧ weigh acquiring bag = 0
  requested : 0 < weigh waits bag → sh.workStarted = true ∨ 0 < weigh starting bag
  tasks : ∀ t, weigh (pending t) bag + (sh.released.map Prod.fst).count t = tasks.count t
  carries : ∀ f ∈ bag, Carries sh f
  exceptionPtr : ∀ e, sh.exceptionPtr = some e → e ∈ sh.reported
  reported : sh.exceptionPtr = none → sh.reported = []
  succeeded : 0 < sh.worked → sh.prefetched = none ∧ sh.exceptionPtr = none
  closed : sh.waiting = false → sh.waitingException = sh.verdict ∧ sh.Finished
  released : ∀ x ∈ sh.released, sh.waiting = false ∧ x.2 = sh.waitingException

section Steps
variable {tasks : List Nat} {sh : Shared E} {f : Frame E} {r : Reaction (Shared E) (Frame E)}
  {rest : Multiset (Frame E)}

theorem owners_keep {after : Shared E} {frames : Multiset (Frame E)} (acquired : Acquired tasks sh (f ::ₘ rest))
    (owned : weigh owns frames = owns f) (refCount : after.refCount = sh.refCount) :
    after.refCount = weigh owns (frames + rest) := by
  have before := acquired.owners
  rw [weigh_cons] at before
  rw [refCount,weigh_add,owned,before]

theorem owners_react (acquired : Acquired tasks sh (f ::ₘ rest)) (reacts : Reacts sh f r) :
    r.shared.refCount = weigh owns (r.frames + rest) := by
  have before := acquired.owners
  cases reacts with
  | acquire | copyOwn | copy =>
    simp [owns,Shared.hold] at before ⊢
    omega
  | decrementLast | decrement =>
    simp [owns] at before ⊢
    omega
  | _ => exact owners_keep acquired rfl rfl

/-- What a frame does not do for the module leaves it where it is. -/
theorem place_keep {after : Shared E} {frames : Multiset (Frame E)} (acquired : Acquired tasks sh (f ::ₘ rest))
    (work : weigh unfinished frames = unfinished f) (finish : weigh finishing frames = finishing f)
    (refCount : after.refCount = sh.refCount) (waiting : after.waiting = sh.waiting)
    (workStarted : after.workStarted = sh.workStarted) :
    weigh unfinished (frames + rest) + weigh finishing (frames + rest) + min 1 after.refCount +
      (if after.waiting then 0 else 1) = if after.workStarted then 1 else 0 := by
  have before := acquired.place
  rw [weigh_cons,weigh_cons] at before
  rw [weigh_add,weigh_add,work,finish,refCount,waiting,workStarted]
  exact before

theorem place_react (acquired : Acquired tasks sh (f ::ₘ rest)) (reacts : Reacts sh f r) :
    weigh unfinished (r.frames + rest) + weigh finishing (r.frames + rest) + min 1 r.shared.refCount +
      (if r.shared.waiting then 0 else 1) = if r.shared.workStarted then 1 else 0 := by
  have owners := acquired.owners
  have before := acquired.place
  cases reacts with
  | startWork started =>
    simp [unfinished,finishing,started] at before ⊢
    grind
  | acquire =>
    -- The place passes to the holder of `implDoAcquire`.
    simp [unfinished,finishing,Shared.hold] at before ⊢
    grind
  | copyOwn | copy =>
    simp [owns] at owners
    simp [unfinished,finishing,Shared.hold] at before ⊢
    grind
  | decrementLast last =>
    simp [unfinished,finishing,last] at before ⊢
    grind
  | decrement more =>
    simp [owns] at owners
    simp [unfinished,finishing] at before ⊢
    grind
  | prefetchFailed | failed | work =>
    simp [unfinished,finishing] at before ⊢
    grind
  | doneWaiting e =>
    simp [unfinished,finishing] at before ⊢
    grind
  | _ => exact place_keep acquired rfl rfl rfl rfl rfl

theorem worked_keep {after : Shared E} {frames : Multiset (Frame E)} (acquired : Acquired tasks sh (f ::ₘ rest))
    (work : weigh unfinished frames = unfinished f) (refCount : after.refCount = sh.refCount)
    (worked : after.worked = sh.worked) :
    weigh unfinished (frames + rest) + min 1 after.refCount + after.worked ≤ 1 := by
  have before := acquired.worked
  rw [weigh_cons] at before
  rw [weigh_add,work,refCount,worked]
  exact before

theorem worked_react (acquired : Acquired tasks sh (f ::ₘ rest)) (reacts : Reacts sh f r) :
    weigh unfinished (r.frames + rest) + min 1 r.shared.refCount + r.shared.worked ≤ 1 := by
  have owners := acquired.owners
  have before := acquired.worked
  cases reacts with
  | startWork started =>
    -- Nothing has been done before the start.
    have place := acquired.place
    have nothing := (acquired.unacquired (.inl started)).2.2.1
    simp [unfinished,finishing,started] at place before ⊢
    omega
  | acquire =>
    simp [unfinished,Shared.hold] at before ⊢
    omega
  | copyOwn | copy =>
    simp [owns] at owners
    simp [unfinished,Shared.hold] at before ⊢
    omega
  | decrementLast last =>
    simp [unfinished,last] at before ⊢
    omega
  | decrement more =>
    simp [owns] at owners
    simp [unfinished] at before ⊢
    omega
  | prefetchFailed | failed | work =>
    simp [unfinished] at before ⊢
    omega
  | _ => exact worked_keep acquired rfl rfl rfl

/-- Whoever acts for the module is alone at its place. -/
theorem Acquired.alone (acquired : Acquired tasks sh (f ::ₘ rest)) (heavy : 0 < owns f + unfinished f)
    {g : Frame E} (member : g ∈ rest) : unfinished g = 0 ∧ finishing g = 0 := by
  have owners := acquired.owners
  have place := acquired.place
  have bound : (if sh.workStarted then 1 else 0) ≤ 1 := by split <;> omega
  simp only [weigh_cons] at owners place
  exact ⟨weigh_eq_zero (by omega : weigh unfinished rest = 0) member,
    weigh_eq_zero (by omega : weigh finishing rest = 0) member⟩

/-- Whoever acts for the module after its prefetches have ended well finds it started. -/
theorem Acquired.late {after : Shared E} {frames : Multiset (Frame E)} (acquired : Acquired tasks sh (f ::ₘ rest))
    (heavy : 0 < owns f + unfinished f) (passed : weigh early frames = 0)
    (workStarted : after.workStarted = sh.workStarted) (prefetched : after.prefetched = none) :
    ¬(after.workStarted = false ∨ 0 < weigh early (frames + rest) ∨ after.prefetched ≠ none) := by
  have owners := acquired.owners
  have place := acquired.place
  have within := weigh_le early_le rest
  rw [weigh_cons] at owners
  rw [weigh_cons,weigh_cons] at place
  rw [workStarted,prefetched,weigh_add,passed]
  rintro (unstarted | started | failed)
  · rw [unstarted] at place
    simp only [Bool.false_eq_true,if_false] at place
    omega
  · have bound : (if sh.workStarted then 1 else 0) ≤ 1 := by split <;> omega
    omega
  · exact failed rfl

theorem unacquired_keep {after : Shared E} {frames : Multiset (Frame E)}
    (acquired : Acquired tasks sh (f ::ₘ rest)) (earlier : weigh early frames = early f)
    (calls : weigh acquiring frames = acquiring f) (workStarted : after.workStarted = sh.workStarted)
    (prefetched : after.prefetched = sh.prefetched) (thrown : after.thrown = sh.thrown)
    (reported : after.reported = sh.reported) (worked : after.worked = sh.worked)
    (before : after.workStarted = false ∨ 0 < weigh early (frames + rest) ∨ after.prefetched ≠ none) :
    after.thrown = none ∧ after.reported = [] ∧ after.worked = 0 ∧ weigh acquiring (frames + rest) = 0 := by
  have unacquired := acquired.unacquired
  rw [weigh_cons,weigh_cons] at unacquired
  rw [weigh_add,earlier,workStarted,prefetched] at before
  rw [weigh_add,calls,thrown,reported,worked]
  exact unacquired before

theorem unacquired_react (acquired : Acquired tasks sh (f ::ₘ rest)) (reacts : Reacts sh f r)
    (before : r.shared.workStarted = false ∨ 0 < weigh early (r.frames + rest) ∨
      r.shared.prefetched ≠ none) : r.shared.thrown = none ∧ r.shared.reported = [] ∧
        r.shared.worked = 0 ∧ weigh acquiring (r.frames + rest) = 0 := by
  have carries := acquired.carries f (Multiset.mem_cons_self f rest)
  cases reacts with
  | startWork started =>
    obtain ⟨thrown,reported,worked,calls⟩ := acquired.unacquired (.inl started)
    exact ⟨thrown,reported,worked,by simpa [acquiring] using calls⟩
  | prefetch | prefetchFailed =>
    have heavy (g : Frame E) (first : early g = 1) : 0 < weigh early (g ::ₘ rest) := by
      rw [weigh_cons,first]
      omega
    obtain ⟨thrown,reported,worked,calls⟩ := acquired.unacquired (.inr (.inl (heavy _ rfl)))
    exact ⟨thrown,reported,worked,by simpa [acquiring] using calls⟩
  | acquire => exact absurd before (acquired.late (by simp [owns,unfinished]) rfl rfl carries.symm)
  | copyOwn | moveOwn | presetOwn | reportOwn | leaveOwn | copy | preset | report | doneWaitingTask
  | decrementLast =>
    exact absurd before (acquired.late (by simp [owns,unfinished]) rfl rfl carries)
  | work => exact absurd before (acquired.late (by simp [unfinished]) rfl rfl carries.1)
  | leave e =>
    have calls := (acquired.unacquired (by simpa [early] using before)).2.2.2
    simp [acquiring] at calls
  | _ => exact unacquired_keep acquired rfl rfl rfl rfl rfl rfl rfl before

theorem requested_keep {after : Shared E} {frames : Multiset (Frame E)}
    (acquired : Acquired tasks sh (f ::ₘ rest)) (waiting : weigh waits frames ≤ waits f)
    (starts : weigh starting frames = starting f) (workStarted : after.workStarted = sh.workStarted)
    (waited : 0 < weigh waits (frames + rest)) :
    after.workStarted = true ∨ 0 < weigh starting (frames + rest) := by
  have before := acquired.requested
  rw [weigh_cons,weigh_cons] at before
  rw [weigh_add] at waited
  rw [weigh_add,starts,workStarted]
  exact before (by omega)

theorem requested_react (acquired : Acquired tasks sh (f ::ₘ rest)) (reacts : Reacts sh f r)
    (waited : 0 < weigh waits (r.frames + rest)) :
    r.shared.workStarted = true ∨ 0 < weigh starting (r.frames + rest) := by
  cases reacts with
  | add | addLate =>
    right
    simp only [starting,Reaction.frames_mk,weigh_add,weigh_coe,List.singleton_append,List.append_nil,
      List.map_cons,List.map_nil,List.sum_cons,List.sum_nil]
    omega
  | startRefused started => exact .inl started
  | startWork => exact .inl rfl
  | _ => exact requested_keep acquired (by simp [waits]) rfl rfl waited

/-- A task that a frame neither takes over nor releases stays where it is. -/
theorem tasks_keep {after : Shared E} {frames : Multiset (Frame E)} (acquired : Acquired tasks sh (f ::ₘ rest))
    {t : Nat} (waiting : weigh (pending t) frames = pending t f) (released : after.released = sh.released) :
    weigh (pending t) (frames + rest) + (after.released.map Prod.fst).count t = tasks.count t := by
  have before := acquired.tasks t
  rw [weigh_cons] at before
  rw [weigh_add,waiting,released]
  exact before

/-- The task that is pending no more is the one that is released. -/
theorem release_count (sh : Shared E) (t u : Nat) : ((sh.release u).released.map Prod.fst).count t =
    pending t (.node u : Frame E) + (sh.released.map Prod.fst).count t := by
  rw [Shared.release,List.map_append,List.count_append,List.map_singleton,List.count_singleton,Nat.add_comm]
  by_cases same : t = u
  · simp [pending,same]
  · simp [pending,same,Ne.symm same]

theorem tasks_react (acquired : Acquired tasks sh (f ::ₘ rest)) (reacts : Reacts sh f r) (t : Nat) :
    weigh (pending t) (r.frames + rest) + (r.shared.released.map Prod.fst).count t = tasks.count t := by
  have before := acquired.tasks t
  cases reacts with
  | add u waiting => exact tasks_keep acquired (by simp [pending]) rfl
  | addLate u waiting | node u waiting =>
    rw [release_count]
    simp [pending] at before ⊢
    omega
  | _ => exact tasks_keep acquired rfl rfl

theorem new_carries (own : Carries sh f) (once : unfinished f + sh.worked ≤ 1) (reacts : Reacts sh f r) :
    ∀ g ∈ r.frames, Carries r.shared g := by
  intro g member
  cases reacts with
  | prefetchFailed e =>
    obtain rfl := List.mem_singleton.mp (Multiset.mem_coe.mp member)
    have failed : some e = sh.prefetched := own
    simp [Carries,Shared.verdict,Shared.Finished,← failed]
  | failed e =>
    obtain rfl := List.mem_singleton.mp (Multiset.mem_coe.mp member)
    obtain ⟨prefetched,failed⟩ : sh.prefetched = none ∧ some e = sh.exceptionPtr := own
    simp [Carries,Shared.verdict,Shared.Finished,prefetched,← failed]
  | work e =>
    obtain rfl := List.mem_singleton.mp (Multiset.mem_coe.mp member)
    obtain ⟨prefetched,succeeded⟩ : sh.prefetched = none ∧ none = sh.exceptionPtr := own
    have first : sh.worked = 0 := by
      simp only [unfinished] at once
      omega
    simp [Carries,Shared.verdict,Shared.Finished,prefetched,← succeeded,first]
  | prefetch e =>
    obtain rfl := List.mem_singleton.mp (Multiset.mem_coe.mp member)
    rfl
  | acquire =>
    obtain rfl := List.mem_singleton.mp (Multiset.mem_coe.mp member)
    exact Eq.symm own
  | pushWork | continuation =>
    obtain rfl := List.mem_singleton.mp (Multiset.mem_coe.mp member)
    exact ⟨own,rfl⟩
  | copyOwn | moveOwn | reportOwn | copy | add =>
    rcases List.mem_cons.mp (Multiset.mem_coe.mp member) with rfl | next
    · exact own
    · obtain rfl := List.mem_singleton.mp next
      exact own
  | startRefused | leave | decrement | doneWaiting | node => cases member
  | addLate | startWork =>
    obtain rfl := List.mem_singleton.mp (Multiset.mem_coe.mp member)
    trivial
  | _ =>
    obtain rfl := List.mem_singleton.mp (Multiset.mem_coe.mp member)
    exact own

theorem carries_react (acquired : Acquired tasks sh (f ::ₘ rest)) (reacts : Reacts sh f r) :
    ∀ g ∈ r.frames + rest, Carries r.shared g := by
  have own := acquired.carries f (Multiset.mem_cons_self f rest)
  have old (g : Frame E) (member : g ∈ rest) : Carries sh g :=
    acquired.carries g (Multiset.mem_cons_of_mem member)
  intro g member
  rcases Multiset.mem_add.mp member with new | other
  · have once := acquired.worked
    rw [weigh_cons] at once
    exact new_carries own (by omega) reacts g new
  · have before := old g other
    have alone (heavy : 0 < owns f + unfinished f) := acquired.alone heavy other
    cases reacts with
    | prefetch e =>
      have owners := acquired.owners
      have place := acquired.place
      have nothing := acquired.unacquired (Or.inr (Or.inl (by simp only [weigh_cons,early]; omega)))
      have bound : (if sh.workStarted then 1 else 0) ≤ 1 := by split <;> omega
      simp only [weigh_cons,owns,unfinished,acquiring] at owners place nothing
      apply Carries.free (alone (by simp [unfinished]))
      · exact weigh_eq_zero (by omega : weigh owns rest = 0) other
      · exact weigh_eq_zero (by omega : weigh acquiring rest = 0) other
    | presetOwn e | preset e | doneWaitingTask e | work e =>
      exact before.change rfl (alone (by simp [owns,unfinished]))
    | _ => exact before.keep rfl rfl rfl rfl

theorem dependentTaskFailed_reported (member : ∀ e, sh.exceptionPtr = some e → e ∈ sh.reported)
    (none : sh.exceptionPtr = none → sh.reported = []) (x : Option E) :
    (∀ e, (sh.dependentTaskFailed x).exceptionPtr = some e → e ∈ (sh.dependentTaskFailed x).reported) ∧
      ((sh.dependentTaskFailed x).exceptionPtr = Option.none → (sh.dependentTaskFailed x).reported = []) := by
  cases before : sh.exceptionPtr with
  | none =>
    cases x <;> simp [Shared.dependentTaskFailed,before,none before]
  | some y =>
    refine ⟨fun e same => ?_,by simp [Shared.dependentTaskFailed,before]⟩
    simp only [Shared.dependentTaskFailed,before,Option.some_or,Option.some.injEq] at same
    exact List.mem_append_right _ (member e (by rw [before,same]))

theorem exceptionPtr_react (acquired : Acquired tasks sh (f ::ₘ rest)) (reacts : Reacts sh f r) :
    (∀ e, r.shared.exceptionPtr = some e → e ∈ r.shared.reported) ∧
      (r.shared.exceptionPtr = none → r.shared.reported = []) := by
  have kept := And.intro acquired.exceptionPtr acquired.reported
  cases reacts with
  | presetOwn e | preset e | doneWaitingTask e =>
    exact dependentTaskFailed_reported acquired.exceptionPtr acquired.reported _
  | _ => exact kept

/-- Whoever acts for the module finds its work undone and its list not told. -/
theorem Acquired.undone (acquired : Acquired tasks sh (f ::ₘ rest)) (heavy : 0 < owns f + unfinished f) :
    sh.worked = 0 ∧ sh.waiting = true := by
  have owners := acquired.owners
  have place := acquired.place
  have worked := acquired.worked
  rw [weigh_cons] at owners worked
  rw [weigh_cons,weigh_cons] at place
  have bound : (if sh.workStarted then 1 else 0) ≤ 1 := by split <;> omega
  refine ⟨by omega,?_⟩
  by_contra told
  rw [if_neg told] at place
  omega

theorem succeeded_react (acquired : Acquired tasks sh (f ::ₘ rest)) (reacts : Reacts sh f r)
    (worked : 0 < r.shared.worked) : r.shared.prefetched = none ∧ r.shared.exceptionPtr = none := by
  have carries := acquired.carries f (Multiset.mem_cons_self f rest)
  cases reacts with
  | prefetch | presetOwn | preset | doneWaitingTask =>
    have undone := (acquired.undone (by simp [owns,unfinished])).1
    exact absurd undone (Nat.ne_of_gt worked)
  | work e => exact ⟨carries.1,carries.2.symm⟩
  | _ => exact acquired.succeeded worked

theorem closed_react (acquired : Acquired tasks sh (f ::ₘ rest)) (reacts : Reacts sh f r)
    (done : r.shared.waiting = false) :
    r.shared.waitingException = r.shared.verdict ∧ r.shared.Finished := by
  have carries := acquired.carries f (Multiset.mem_cons_self f rest)
  cases reacts with
  | prefetch | presetOwn | preset | doneWaitingTask | work =>
    have waiting := (acquired.undone (by simp [owns,unfinished])).2
    exact absurd done (by simp [Shared.dependentTaskFailed,waiting])
  | doneWaiting e => exact carries
  | _ => exact acquired.closed done

theorem released_react (acquired : Acquired tasks sh (f ::ₘ rest)) (reacts : Reacts sh f r) :
    ∀ x ∈ r.shared.released, r.shared.waiting = false ∧ x.2 = r.shared.waitingException := by
  intro x member
  cases reacts with
  | addLate t waiting | node t waiting =>
    rcases List.mem_append.mp member with old | new
    · exact acquired.released x old
    · obtain rfl := List.mem_singleton.mp new
      exact ⟨waiting,rfl⟩
  | doneWaiting e =>
    -- Nobody has been released before.
    have told := (acquired.released x member).1
    have place := acquired.place
    simp [finishing,told] at place
    split_ifs at place
    omega
  | _ => exact acquired.released x member

theorem Acquired.react (acquired : Acquired tasks sh (f ::ₘ rest)) (reacts : Reacts sh f r) :
    Acquired tasks r.shared (r.frames + rest) :=
  ⟨owners_react acquired reacts,place_react acquired reacts,worked_react acquired reacts,
    unacquired_react acquired reacts,requested_react acquired reacts,tasks_react acquired reacts,
    carries_react acquired reacts,(exceptionPtr_react acquired reacts).1,(exceptionPtr_react acquired reacts).2,
    succeeded_react acquired reacts,closed_react acquired reacts,released_react acquired reacts⟩

end Steps

theorem initial_acquired (tasks : List Nat) :
    Acquired tasks (initial E tasks).shared (initial E tasks).bag := by
  have only (f : Frame E) (member : f ∈ (initial E tasks).bag) : ∃ t, f = .doWorkAsync t := by
    obtain ⟨stack,inside,top⟩ := List.mem_flatten.mp (Multiset.mem_coe.mp member)
    obtain ⟨t,_,rfl⟩ := List.mem_map.mp inside
    exact ⟨t,List.mem_singleton.mp top⟩
  have light (weight : Frame E → Nat) (none : ∀ t, weight (.doWorkAsync t) = 0) :
      weigh weight (initial E tasks).bag = 0 := by
    by_contra heavy
    obtain ⟨f,member,positive⟩ := (weigh_pos_iff _ _).mp (Nat.pos_of_ne_zero heavy)
    obtain ⟨t,rfl⟩ := only f member
    rw [none] at positive
    exact Nat.lt_irrefl 0 positive
  constructor
  · rw [light owns fun _ => rfl]
    rfl
  · rw [light unfinished fun _ => rfl,light finishing fun _ => rfl]
    rfl
  · rw [light unfinished fun _ => rfl]
    simp [initial]
  · intro _
    exact ⟨rfl,rfl,rfl,light acquiring fun _ => rfl⟩
  · intro waited
    rw [light waits fun _ => rfl] at waited
    exact absurd waited (Nat.lt_irrefl 0)
  · intro t
    have count (tasks : List Nat) :
        (((tasks.map fun u => [Frame.doWorkAsync u]).flatten : List (Frame E)).map (pending t)).sum =
          tasks.count t := by
      induction tasks with
      | nil => rfl
      | cons u tasks ih =>
        rw [List.map_cons,List.flatten_cons,List.map_append,List.sum_append,ih,List.count_cons]
        by_cases same : t = u
        · subst u
          simp [pending,Nat.add_comm]
        · simp [pending,same,Ne.symm same]
    rw [Pool.bag,weigh_coe]
    exact count tasks
  · intro f member
    obtain ⟨t,rfl⟩ := only f member
    trivial
  all_goals simp [initial]

theorem Quiescent.light {s : State E} (quiescent : Quiescent s) (weight : Frame E → Nat)
    (nodes : ∀ t, weight (.node t) = 0) : weigh weight s.bag = 0 := by
  by_contra heavy
  obtain ⟨f,member,positive⟩ := (weigh_pos_iff _ _).mp (Nat.pos_of_ne_zero heavy)
  obtain ⟨t,rfl,_⟩ := quiescent f member
  rw [nodes] at positive
  exact Nat.lt_irrefl 0 positive

/-- No task is left in the list of a module that has nothing more to do. -/
theorem Acquired.quiescent_empty {tasks : List Nat} {s : State E} (acquired : Acquired tasks s.shared s.bag)
    (quiescent : Quiescent s) : s.bag = 0 := by
  refine Multiset.eq_zero_of_forall_notMem fun f member => ?_
  obtain ⟨t,rfl,waiting⟩ := quiescent f member
  have idle := quiescent.light starting fun _ => rfl
  have started : s.shared.workStarted = true := by
    rcases acquired.requested (weigh_pos member (by simp [waits])) with started | starts
    · exact started
    · omega
  have owners := acquired.owners
  have place := acquired.place
  rw [quiescent.light owns fun _ => rfl] at owners
  rw [quiescent.light unfinished fun _ => rfl,quiescent.light finishing fun _ => rfl,
    owners,waiting,started] at place
  simp at place

/-- What a failing `implDoAcquire` and a successful event are to lead to. -/
def Reports (sh : Shared E) : Prop :=
  (∀ e, sh.thrown = some e → sh.worked = 0 ∧ ∀ x ∈ sh.released, ∃ y ∈ e :: sh.reported, x.2 = some y) ∧
  (sh.prefetched = none → sh.thrown = none → sh.reported = [] → sh.workThrown = none →
    ∀ x ∈ sh.released, x.2 = none)

/-- `implDoAcquire` does not throw, or a holder reports an exception. -/
def Covered (sh : Shared E) : Prop :=
  sh.thrown = none ∨ sh.reported ≠ []

theorem Acquired.reports {tasks : List Nat} {sh : Shared E} {bag : Multiset (Frame E)}
    (acquired : Acquired tasks sh bag) (covered : Covered sh) : Reports sh := by
  have told (x : Nat × Option E) (member : x ∈ sh.released) : x.2 = sh.verdict := by
    obtain ⟨closed,same⟩ := acquired.released x member
    rw [same,(acquired.closed closed).1]
  constructor
  · intro e thrown
    have prefetched : sh.prefetched = none := by
      by_contra failed
      have nothing := (acquired.unacquired (Or.inr (Or.inr failed))).1
      rw [thrown] at nothing
      cases nothing
    have reported : sh.reported ≠ [] := by
      apply covered.resolve_left
      rw [thrown]
      exact Option.some_ne_none e
    obtain ⟨y,first⟩ : ∃ y, sh.exceptionPtr = some y := by
      apply Option.ne_none_iff_exists'.mp
      intro none
      exact reported (acquired.reported none)
    refine ⟨?_,fun x member => ⟨y,List.mem_cons_of_mem e (acquired.exceptionPtr y first),?_⟩⟩
    · by_contra worked
      have succeeded := (acquired.succeeded (Nat.pos_of_ne_zero worked)).2
      rw [first] at succeeded
      cases succeeded
    · rw [told x member,Shared.verdict,prefetched,first]
      rfl
  · intro prefetched _ reported workThrown x member
    have none : sh.exceptionPtr = none := by
      by_contra some
      obtain ⟨y,first⟩ := Option.ne_none_iff_exists'.mp some
      have inside := acquired.exceptionPtr y first
      rw [reported] at inside
      cases inside
    rw [told x member,Shared.verdict,prefetched,none,workThrown]
    rfl

/-- An exception of `implDoAcquire` that no holder has reported is lost. -/
theorem Acquired.covered {tasks : List Nat} {s : State E} (acquired : Acquired tasks s.shared s.bag)
    (quiescent : Quiescent s) (reports : Reports s.shared) : Covered s.shared := by
  by_contra uncovered
  obtain ⟨thrown,reported⟩ := not_or.mp uncovered
  obtain ⟨e,thrown⟩ := Option.ne_none_iff_exists'.mp thrown
  have started : s.shared.workStarted = true := by
    by_contra unstarted
    have nothing := (acquired.unacquired (Or.inl (by simpa using unstarted))).1
    rw [thrown] at nothing
    cases nothing
  have prefetched : s.shared.prefetched = none := by
    by_contra failed
    have nothing := (acquired.unacquired (Or.inr (Or.inr failed))).1
    rw [thrown] at nothing
    cases nothing
  have silent : s.shared.exceptionPtr = none := by
    by_contra some
    obtain ⟨y,first⟩ := Option.ne_none_iff_exists'.mp some
    exact reported (List.ne_nil_of_mem (acquired.exceptionPtr y first))
  have owners := acquired.owners
  have place := acquired.place
  rw [quiescent.light owns fun f => rfl] at owners
  rw [quiescent.light unfinished fun _ => rfl,quiescent.light finishing fun _ => rfl,
    owners,started] at place
  have closed : s.shared.waiting = false := by
    by_contra waiting
    rw [Bool.not_eq_false] at waiting
    simp [waiting] at place
  have worked := (acquired.closed closed).2 prefetched silent
  have idle := (reports.1 e thrown).1
  omega

/-- The waiting tasks learn about `implDoAcquire` exactly when it does not throw or a holder reports
an exception; in the end each of them has been released once. -/
theorem acquire_reports (threadType : ThreadType) (tasks : List Nat) (s : State E)
    (run : Reachable (next threadType) (initial E tasks) s) :
    (Covered s.shared → Reports s.shared) ∧
    (Quiescent s → (Reports s.shared ↔ Covered s.shared) ∧
      ∀ t, (s.shared.released.map Prod.fst).count t = tasks.count t) := by
  have preserved (s : State E) (a : Nat × Choice E) (t : State E) (acquired : Acquired tasks s.shared s.bag)
      (_ : True) (taken : next threadType s a = some t) : Acquired tasks t.shared t.bag :=
    Pool.step_invariant (fun _ _ _ _ _ holds reacted => holds.react (react_reacts reacted)) acquired taken
  have acquired := Reaches.invariant preserved run (initial_acquired tasks)
  refine ⟨acquired.reports,fun quiescent => ⟨⟨acquired.covered quiescent,acquired.reports⟩,fun t => ?_⟩⟩
  have released := acquired.tasks t
  rw [acquired.quiescent_empty quiescent,weigh_zero,zero_add] at released
  exact released

private def go : Choice Nat := .finish none

/-- `implDoAcquire` throws 7 after it has given a copy of its holder to a thread that reports 8. -/
def reportedRun : List (Nat × Choice Nat) :=
  [(0,go),(0,go),(0,go),(2,go),(3,go),(3,go),(3,.copy),(3,.finish (some 7)),(4,.doneWaiting (some 8)),
    (3,go),(3,go),(4,go),(4,go),(5,go),(6,go),(6,go),(6,go),(1,go)]

theorem acquire_reports_copy : ∃ s,
    execute (next .threadUnsafe) (initial Nat [0]) reportedRun = some s ∧
      s.shared.released = [(0,some 8)] ∧ Reports s.shared := by
  have ran : (execute (next .threadUnsafe) (initial Nat [0]) reportedRun).map
      (fun s => (s.shared.released,s.shared.reported)) = some ([(0,some 8)],[8]) := by decide
  obtain ⟨s,ran,told⟩ := Option.map_eq_some_iff.mp ran
  obtain ⟨released,reported⟩ := Prod.mk.inj told
  have covered : Covered s.shared := Or.inr (by simp [reported])
  exact ⟨s,ran,released,(acquire_reports .threadUnsafe [0] s (execute_reachable _ ran)).1 covered⟩

/-- `implDoAcquire` throws 7 at once: the module does its work, and its task is told nothing. -/
theorem throwingAcquire_lost : ∃ s, Reachable (next .threadUnsafe) (initial Nat [0]) s ∧
    s.shared.prefetched = none ∧ s.shared.thrown = some 7 ∧ s.shared.worked = 1 ∧
      s.shared.released = [(0,none)] ∧ ¬Reports s.shared := by
  have ran : (execute (next .threadUnsafe) (initial Nat [0]) [(0,go),(0,go),(0,go),(2,go),(3,go),(3,go),
      (3,.finish (some 7)),(3,go),(3,go),(4,go),(5,go),(5,go),(5,go),(1,go)]).map (fun s => decide
        (s.shared.prefetched = none ∧ s.shared.thrown = some 7 ∧ s.shared.worked = 1 ∧
          s.shared.released = [(0,none)])) = some true := by decide
  obtain ⟨s,ran,lost⟩ := Option.map_eq_some_iff.mp ran
  obtain ⟨prefetched,thrown,worked,released⟩ := of_decide_eq_true lost
  refine ⟨s,execute_reachable _ ran,prefetched,thrown,worked,released,fun reports => ?_⟩
  have idle := (reports.1 7 thrown).1
  omega

end ToyMtFramework.ModuleAcquire
