import ToyMtFramework.ModuleWrapper
import Mathlib.Data.List.Count
import Mathlib.Tactic.SplitIfs

/-! What a round of a `ModuleWrapper` does for its callers. The module is at one place at a time
from its start to the release of its tasks. The run task learns about the first failing item, and
in TBB it never forgets it: what an earlier round has left in it is all that can go wrong. -/
namespace ToyMtFramework.ModuleWrapper
open Activities Transition
open SerialTaskQueue (Framework)

variable {E : Type}

inductive Reacts (kind : Kind) (sh : Shared E) : Frame E → Reaction (Shared E) (Frame E) → Prop
  | add (t : Nat) (waiting : sh.waiting = true) :
      Reacts kind sh (.doWorkAsync t) ⟨sh,[.startWork],[.node t]⟩
  | addLate (t : Nat) (waiting : sh.waiting = false) :
      Reacts kind sh (.doWorkAsync t) ⟨sh.release t,[.startWork],[]⟩
  | node (t : Nat) (waiting : sh.waiting = false) : Reacts kind sh (.node t) ⟨sh.release t,[],[]⟩
  | startRefused (started : sh.workStarted = true) : Reacts kind sh .startWork ⟨sh,[],[]⟩
  | startWork (started : sh.workStarted = false) :
      Reacts kind sh .startWork ⟨sh.start kind.framework,[.prefetch kind.items],[]⟩
  | prefetched : Reacts kind sh (.prefetch 0) ⟨sh,[.decrement],[]⟩
  | prefetch (i : Nat) : Reacts kind sh (.prefetch (i + 1)) ⟨sh.hold,[.prefetch i],[.item i]⟩
  | item (i : Nat) (outcome : Option E) : Reacts kind sh (.item i) ⟨sh,[.doneWaitingTask outcome],[]⟩
  | doneWaitingTask (e : Option E) :
      Reacts kind sh (.doneWaitingTask e) ⟨sh.dependentTaskFailed e,[.decrement],[]⟩
  | decrementLast (last : sh.refCount = 1) :
      Reacts kind sh .decrement ⟨{sh with refCount := sh.refCount - 1},[],[.execute]⟩
  | decrement (more : sh.refCount ≠ 1) :
      Reacts kind sh .decrement ⟨{sh with refCount := sh.refCount - 1},[],[]⟩
  | push : Reacts kind sh .execute ⟨sh,[],[.queued sh.exceptionPtr]⟩
  | execute (direct : kind.hasQueue = false) :
      Reacts kind sh .execute ⟨sh,[.runModule sh.exceptionPtr],[]⟩
  | queued (e : Option E) : Reacts kind sh (.queued e) ⟨sh,[.runModule e],[]⟩
  | failed (e : E) : Reacts kind sh (.runModule (some e)) ⟨sh,[.doneWaiting (some e)],[]⟩
  | runModule : Reacts kind sh (.runModule none) ⟨sh,[.implDoWork],[]⟩
  | implDoWork (thrown : Option E) :
      Reacts kind sh .implDoWork ⟨{sh with ran := sh.ran ++ [thrown]},[.doneWaiting thrown],[]⟩
  | doneWaiting (e : Option E) :
      Reacts kind sh (.doneWaiting e) ⟨{sh with waiting := false, waitingException := e},[],[]⟩

theorem react_reacts {kind : Kind} {sh : Shared E} {f : Frame E} {choice : Option E}
    {r : Reaction (Shared E) (Frame E)} (reacted : react kind sh f choice = some r) :
    Reacts kind sh f r := by
  unfold react at reacted
  split at reacted
  · split at reacted <;> cases reacted
    · exact .add _ ‹_›
    · exact .addLate _ (by simpa using ‹¬_ = true›)
  · split at reacted <;> cases reacted
    exact .node _ (by simpa using ‹¬_ = true›)
  · split at reacted <;> cases reacted
    · exact .startRefused ‹_›
    · exact .startWork (by simpa using ‹¬_ = true›)
  · cases reacted
    exact .prefetched
  · cases reacted
    exact .prefetch _
  · cases reacted
    exact .item _ _
  · cases reacted
    exact .doneWaitingTask _
  · cases reacted
    split
    · exact .decrementLast ‹_›
    · exact .decrement ‹_›
  · split at reacted <;> cases reacted
    · exact .push
    · exact .execute (by simpa using ‹¬_ = true›)
  · cases reacted
    exact .queued _
  · cases reacted
    exact .failed _
  · cases reacted
    exact .runModule
  · cases reacted
    exact .implDoWork _
  · cases reacted
    exact .doneWaiting _

def owns : Frame E → Nat
  | .prefetch _ | .item _ | .doneWaitingTask _ | .decrement => 1
  | _ => 0

def unfinished : Frame E → Nat
  | .execute | .queued _ | .runModule _ | .implDoWork => 1
  | _ => 0

def finishing : Frame E → Nat
  | .doneWaiting _ => 1
  | _ => 0

def starting : Frame E → Nat
  | .startWork => 1
  | _ => 0

def waits : Frame E → Nat
  | .node _ => 1
  | _ => 0

def pending (t : Nat) : Frame E → Nat
  | .doWorkAsync u | .node u => if t = u then 1 else 0
  | _ => 0

def calling : Frame E → Nat
  | .doWorkAsync _ => 1
  | _ => 0

/-- The exception that the run task has when a round begins. -/
def Shared.carried (framework : Framework) (sh : Shared E) : Option E :=
  match framework with
  | .tbb => sh.earlier.head?
  | .openMP => none

/-- What the run task tells the waiting tasks, or else the body. -/
def Shared.verdict (sh : Shared E) : Option E :=
  sh.exceptionPtr.or sh.ran.head?.join

def Shared.Finished (sh : Shared E) : Prop :=
  sh.ran.length = if sh.exceptionPtr = none then 1 else 0

def Carries (sh : Shared E) : Frame E → Prop
  | .queued e | .runModule e => e = sh.exceptionPtr
  | .implDoWork => sh.exceptionPtr = none
  | .doneWaiting e => e = sh.verdict ∧ sh.Finished
  | _ => True

structure Round (framework : Framework) (sh : Shared E) (bag : Multiset (Frame E)) : Prop where
  owners : sh.refCount = weigh owns bag
  place : weigh unfinished bag + weigh finishing bag + min 1 sh.refCount + (if sh.waiting then 0 else 1) =
    if sh.workStarted then 1 else 0
  ran : weigh unfinished bag + min 1 sh.refCount + sh.ran.length ≤ if sh.workStarted then 1 else 0
  prefetches : sh.prefetches = if sh.workStarted then 1 else 0
  requested : 0 < weigh waits bag → sh.workStarted = true ∨ 0 < weigh starting bag
  called : sh.calls ≠ [] → sh.workStarted = true ∨ 0 < weigh starting bag + weigh calling bag
  tasks : ∀ t, weigh (pending t) bag + (sh.released.map Prod.fst).count t = sh.calls.count t
  unstarted : sh.workStarted = false → sh.failures = [] ∧ (framework = .tbb → sh.exceptionPtr = sh.earlier.head?)
  exceptionPtr : sh.workStarted = true → sh.exceptionPtr = (sh.carried framework).or sh.failures.head?
  carries : ∀ f ∈ bag, Carries sh f
  closed : sh.waiting = false → sh.waitingException = sh.verdict ∧ sh.Finished
  released : ∀ x ∈ sh.released, sh.waiting = false ∧ x.2 = sh.waitingException

section Steps
variable {kind : Kind} {sh : Shared E} {f : Frame E} {r : Reaction (Shared E) (Frame E)}
  {rest : Multiset (Frame E)}

theorem owners_react (round : Round kind.framework sh (f ::ₘ rest)) (reacts : Reacts kind sh f r) :
    r.shared.refCount = weigh owns (r.frames + rest) := by
  have before := round.owners
  cases reacts <;> simp [owns,Shared.hold,Shared.start,Shared.release,Shared.dependentTaskFailed]
    at before ⊢ <;> omega

theorem place_react (round : Round kind.framework sh (f ::ₘ rest)) (reacts : Reacts kind sh f r) :
    weigh unfinished (r.frames + rest) + weigh finishing (r.frames + rest) + min 1 r.shared.refCount +
      (if r.shared.waiting then 0 else 1) = if r.shared.workStarted then 1 else 0 := by
  have owners := round.owners
  have before := round.place
  cases reacts <;> simp [owns,unfinished,finishing,Shared.hold,Shared.start,Shared.release,
    Shared.dependentTaskFailed] at owners before ⊢ <;> grind

theorem ran_react (round : Round kind.framework sh (f ::ₘ rest)) (reacts : Reacts kind sh f r) :
    weigh unfinished (r.frames + rest) + min 1 r.shared.refCount + r.shared.ran.length ≤
      if r.shared.workStarted then 1 else 0 := by
  have owners := round.owners
  have before := round.ran
  cases reacts <;> simp [owns,unfinished,Shared.hold,Shared.start,Shared.release,
    Shared.dependentTaskFailed] at owners before ⊢ <;> grind

theorem prefetches_react (round : Round kind.framework sh (f ::ₘ rest)) (reacts : Reacts kind sh f r) :
    r.shared.prefetches = if r.shared.workStarted then 1 else 0 := by
  have before := round.prefetches
  cases reacts with
  | startWork started => simp [Shared.start,before,started]
  | _ => exact before

theorem requested_react (round : Round kind.framework sh (f ::ₘ rest)) (reacts : Reacts kind sh f r)
    (waited : 0 < weigh waits (r.frames + rest)) :
    r.shared.workStarted = true ∨ 0 < weigh starting (r.frames + rest) := by
  have before := round.requested
  cases reacts <;> simp [waits,starting,Shared.hold,Shared.start,Shared.release,
    Shared.dependentTaskFailed] at before waited ⊢ <;> grind

theorem called_react (round : Round kind.framework sh (f ::ₘ rest)) (reacts : Reacts kind sh f r)
    (called : r.shared.calls ≠ []) : r.shared.workStarted = true ∨
      0 < weigh starting (r.frames + rest) + weigh calling (r.frames + rest) := by
  have before := round.called
  cases reacts <;> simp [starting,calling,Shared.hold,Shared.start,Shared.release,
    Shared.dependentTaskFailed] at before called ⊢ <;> grind

theorem tasks_react (round : Round kind.framework sh (f ::ₘ rest)) (reacts : Reacts kind sh f r) (t : Nat) :
    weigh (pending t) (r.frames + rest) + (r.shared.released.map Prod.fst).count t =
      r.shared.calls.count t := by
  have before := round.tasks t
  cases reacts <;> simp [pending,Shared.hold,Shared.start,Shared.release,Shared.dependentTaskFailed,
    List.count_append,List.count_singleton] at before ⊢ <;> grind

theorem unstarted_react (round : Round kind.framework sh (f ::ₘ rest)) (reacts : Reacts kind sh f r)
    (unstarted : r.shared.workStarted = false) : r.shared.failures = [] ∧
      (kind.framework = .tbb → r.shared.exceptionPtr = r.shared.earlier.head?) := by
  have owners := round.owners
  have place := round.place
  have before := round.unstarted
  cases reacts with
  | startWork started => simp [Shared.start] at unstarted
  | doneWaitingTask e =>
    have started : sh.workStarted = false := unstarted
    simp only [weigh_cons,owns] at owners
    rw [started] at place
    simp only [Bool.false_eq_true,if_false] at place
    omega
  | _ => exact before unstarted

theorem exceptionPtr_react (round : Round kind.framework sh (f ::ₘ rest)) (reacts : Reacts kind sh f r)
    (started : r.shared.workStarted = true) :
    r.shared.exceptionPtr = (r.shared.carried kind.framework).or r.shared.failures.head? := by
  have before := round.exceptionPtr
  cases reacts with
  | startWork unstarted =>
    obtain ⟨failures,slot⟩ := round.unstarted unstarted
    cases framework : kind.framework with
    | tbb => simp [Shared.start,Shared.carried,failures,slot framework]
    | openMP => simp [Shared.start,Shared.carried,failures]
  | doneWaitingTask e =>
    have slot := before started
    simp only [Shared.dependentTaskFailed,Shared.carried] at slot ⊢
    rw [slot,Option.or_assoc]
    congr 1
    cases sh.failures with
    | nil => cases e <;> rfl
    | cons x xs => rfl
  | _ => exact before started

theorem Carries.free {g : Frame E} (elsewhere : unfinished g = 0 ∧ finishing g = 0) : Carries sh g := by
  cases g <;> simp_all [Carries,unfinished,finishing]

theorem Carries.keep {after : Shared E} {g : Frame E} (carries : Carries sh g)
    (exceptionPtr : after.exceptionPtr = sh.exceptionPtr) (ran : after.ran = sh.ran) :
    Carries after g := by
  cases g <;> simp_all [Carries,Shared.verdict,Shared.Finished]

/-- While a frame has the module, or holds its run task, no other frame has it. -/
theorem Round.alone {framework : Framework} (round : Round framework sh (f ::ₘ rest))
    (heavy : 0 < owns f + unfinished f ∨ sh.workStarted = false) {g : Frame E} (member : g ∈ rest) :
    unfinished g = 0 ∧ finishing g = 0 := by
  have owners := round.owners
  have place := round.place
  simp only [weigh_cons] at owners place
  have light : weigh unfinished rest = 0 ∧ weigh finishing rest = 0 := by
    rcases heavy with heavy | unstarted
    · split_ifs at place <;> omega
    · rw [unstarted] at place
      simp only [Bool.false_eq_true,if_false] at place
      omega
  exact ⟨weigh_eq_zero light.1 member,weigh_eq_zero light.2 member⟩

theorem new_carries (own : Carries sh f) (ran : unfinished f + sh.ran.length ≤ 1)
    (reacts : Reacts kind sh f r) : ∀ g ∈ r.frames, Carries r.shared g := by
  have nothing (inside : unfinished f = 1) : sh.ran = [] :=
    List.eq_nil_of_length_eq_zero (by omega)
  cases reacts with
  | implDoWork thrown =>
    have slot : sh.exceptionPtr = none := own
    simp [Carries,Shared.verdict,Shared.Finished,slot,nothing rfl]
  | failed e =>
    have slot : some e = sh.exceptionPtr := own
    simp [Carries,Shared.verdict,Shared.Finished,← slot,nothing rfl]
  | _ => simp_all [Carries]

theorem carries_react (round : Round kind.framework sh (f ::ₘ rest)) (reacts : Reacts kind sh f r) :
    ∀ g ∈ r.frames + rest, Carries r.shared g := by
  have own := round.carries f (Multiset.mem_cons_self f rest)
  have ran := round.ran
  have bound : (if sh.workStarted then 1 else 0) ≤ 1 := by split <;> omega
  rw [weigh_cons] at ran
  intro g member
  rcases Multiset.mem_add.mp member with new | other
  · exact new_carries own (by omega) reacts g new
  · have before := round.carries g (Multiset.mem_cons_of_mem other)
    cases reacts with
    | startWork started => exact Carries.free (round.alone (Or.inr started) other)
    | doneWaitingTask e => exact Carries.free (round.alone (Or.inl (by simp [owns,unfinished])) other)
    | implDoWork thrown => exact Carries.free (round.alone (Or.inl (by simp [owns,unfinished])) other)
    | _ => exact before.keep rfl rfl

/-- Where the module is, its waiting tasks have not been released. -/
theorem Round.waiting {framework : Framework} (round : Round framework sh (f ::ₘ rest))
    (heavy : 0 < owns f + unfinished f + finishing f ∨ sh.workStarted = false) : sh.waiting = true := by
  have owners := round.owners
  have place := round.place
  simp only [weigh_cons] at owners place
  by_contra closed
  rw [if_neg closed] at place
  rcases heavy with heavy | unstarted
  · split at place <;> omega
  · rw [if_neg (by simp [unstarted])] at place
    omega

theorem closed_react (round : Round kind.framework sh (f ::ₘ rest)) (reacts : Reacts kind sh f r)
    (closed : r.shared.waiting = false) :
    r.shared.waitingException = r.shared.verdict ∧ r.shared.Finished := by
  have own := round.carries f (Multiset.mem_cons_self f rest)
  have undone (heavy : 0 < owns f + unfinished f + finishing f ∨ sh.workStarted = false)
      (closed : sh.waiting = false) : False := by
    have still := round.waiting heavy
    rw [closed] at still
    cases still
  cases reacts with
  | doneWaiting e => exact own
  | startWork started => exact (undone (Or.inr started) closed).elim
  | doneWaitingTask e =>
    exact (undone (Or.inl (by simp [owns,unfinished,finishing])) closed).elim
  | implDoWork thrown =>
    exact (undone (Or.inl (by simp [owns,unfinished,finishing])) closed).elim
  | _ => exact round.closed closed

theorem released_react (round : Round kind.framework sh (f ::ₘ rest)) (reacts : Reacts kind sh f r) :
    ∀ x ∈ r.shared.released, r.shared.waiting = false ∧ x.2 = r.shared.waitingException := by
  have before := round.released
  cases reacts with
  | addLate t waiting | node t waiting =>
    intro x member
    rcases List.mem_append.mp member with old | new
    · exact before x old
    · obtain rfl := List.mem_singleton.mp new
      exact ⟨waiting,rfl⟩
  | doneWaiting e =>
    have still := round.waiting (Or.inl (by simp [owns,unfinished,finishing]))
    intro x member
    have closed := (before x member).1
    rw [still] at closed
    cases closed
  | _ => exact before

theorem Round.react (round : Round kind.framework sh (f ::ₘ rest)) (reacts : Reacts kind sh f r) :
    Round kind.framework r.shared (r.frames + rest) :=
  ⟨owners_react round reacts,place_react round reacts,ran_react round reacts,prefetches_react round reacts,
    requested_react round reacts,called_react round reacts,tasks_react round reacts,
    unstarted_react round reacts,exceptionPtr_react round reacts,carries_react round reacts,
    closed_react round reacts,released_react round reacts⟩

end Steps

theorem Round.call {framework : Framework} {sh : Shared E} {bag : Multiset (Frame E)}
    (round : Round framework sh bag) (t : Nat) : Round framework (sh.call t) (.doWorkAsync t ::ₘ bag) := by
  obtain ⟨owners,place,ran,prefetches,requested,called,tasks,unstarted,exceptionPtr,carries,closed,released⟩ := round
  have light : owns (.doWorkAsync t : Frame E) = 0 ∧ unfinished (.doWorkAsync t : Frame E) = 0 ∧
      finishing (.doWorkAsync t : Frame E) = 0 := ⟨rfl,rfl,rfl⟩
  refine ⟨?_,?_,?_,prefetches,?_,?_,?_,unstarted,exceptionPtr,?_,closed,released⟩
  · simp only [weigh_cons,light,Nat.zero_add]
    exact owners
  · simp only [weigh_cons,light,Nat.zero_add]
    exact place
  · simp only [weigh_cons,light,Nat.zero_add]
    exact ran
  · simpa [waits,starting,Shared.call] using requested
  · intro _
    right
    simp only [weigh_cons,calling]
    omega
  · intro u
    have before := tasks u
    simp [pending,Shared.call,List.count_append,List.count_singleton] at before ⊢
    grind
  · intro f member
    rcases Multiset.mem_cons.mp member with rfl | old
    · trivial
    · exact (carries f old).keep rfl rfl

/-- What the run task has learned outlives the round. -/
theorem Round.reset {framework : Framework} {sh : Shared E} (round : Round framework sh 0) :
    Round framework sh.reset 0 := by
  have slot (tbb : framework = .tbb) : sh.exceptionPtr = (sh.earlier ++ sh.failures).head? := by
    rw [List.head?_append]
    cases started : sh.workStarted with
    | false =>
      obtain ⟨failures,slot⟩ := round.unstarted started
      simp [failures,slot tbb]
    | true =>
      have slot := round.exceptionPtr started
      rw [slot,tbb]
      rfl
  have owners := round.owners
  rw [weigh_zero] at owners
  constructor <;> simp [Shared.reset,owners]
  simpa [List.head?_append] using slot

theorem Round.next {kind : Kind} {s t : State E} {a : Action E}
    (round : Round kind.framework s.shared s.bag) (taken : next kind s a = some t) :
    Round kind.framework t.shared t.bag := by
  cases a with
  | act thread choice =>
    exact Pool.step_invariant (fun _ _ _ _ _ round reacted => round.react (react_reacts reacted))
      round taken
  | call t =>
    obtain rfl := Option.some.inj taken
    rw [Pool.bag_spawn]
    exact round.call t
  | reset =>
    simp only [ModuleWrapper.next,Option.ite_none_right_eq_some,Option.some.injEq] at taken
    obtain ⟨quiet,rfl⟩ := taken
    have empty : s.bag = 0 := by rw [Pool.bag,List.isEmpty_iff.mp quiet,Multiset.coe_nil]
    rw [empty] at round
    exact round.reset

theorem initial_round (framework : Framework) : Round framework (initial E).shared (initial E).bag := by
  have bag : (initial E).bag = 0 := rfl
  rw [bag]
  constructor <;> simp [initial]

theorem reachable_round {kind : Kind} {s : State E} (run : Reachable (next kind) (initial E) s) :
    Round kind.framework s.shared s.bag := by
  have preserved (s : State E) (a : Action E) (t : State E) (round : Round kind.framework s.shared s.bag)
      (_ : True) (taken : ModuleWrapper.next kind s a = some t) : Round kind.framework t.shared t.bag :=
    round.next taken
  exact Reaches.invariant preserved run (initial_round kind.framework)

end ToyMtFramework.ModuleWrapper
