import ToyMtFramework.OpenMPGetReactions
import Mathlib.Data.List.Count
import Mathlib.Tactic.SplitIfs

/-! `m_pauseCount` of `s_non_thread_safe_queue`. `edm::Event::get` resumes the queue for a module that
is not thread safe, and nothing ever pauses it. -/
namespace ToyMtFramework.OpenMP
open Activities Transition
open ToyMtFramework.Schedule (ThreadType)

variable {L D E : Type}

def Matched (calls : List QueueCall) : Prop :=
  ∀ earlier, earlier <+: calls → earlier.count .resume ≤ earlier.count .pause

def getting (f : Frame L D E) : Nat :=
  match f.stage with
  | .get _ _ _ _ | .regionEnd _ _ _ _ _ => 1
  | _ => 0

def found (f : Frame L D E) : Nat :=
  match f.stage with
  | .get _ _ count _ | .regionEnd _ _ _ count _ => count
  | _ => 0

structure Balanced (s : State L D E) : Prop where
  matched : Matched s.shared.queueCalls
  counted : s.shared.pauseCount + s.shared.queueCalls.count .resume = s.shared.queueCalls.count .pause
  kept : ∀ g ∈ s.shared.gets, g.left = g.found
  unpaused : weigh getting s.bag = 0 → s.shared.pauseCount = 0

section Machine
variable [DecidableEq L] [DecidableEq D] {job : Job L D E}

/-- The queue is resumed for each caller that is not thread safe; before the first of them nobody has
seen it paused. -/
structure Resumed (job : Job L D E) (sh : Shared L D E) (bag : Multiset (Frame L D E)) : Prop where
  calls : sh.queueCalls = List.replicate (sh.callers.countP fun w => !job.isThreadSafe w) .resume
  unpaused : sh.queueCalls = [] →
    sh.pauseCount = 0 ∧ weigh found bag = 0 ∧ ∀ g ∈ sh.gets, g.found = 0 ∧ g.left = 0

omit [DecidableEq L] [DecidableEq D] in
theorem TaskId.found_spawned (t : TaskId L D) (r : Option Nat) :
    weigh found (↑(t.spawned r : List (Frame L D E)) : Multiset (Frame L D E)) = 0 := by
  cases t <;> rfl

theorem Resumed.beginGet {sh : Shared L D E} {rest : Multiset (Frame L D E)} (resumed : Resumed job sh rest)
    (w : ModuleWrapper L D) (f : Frame L D E) (sees : found f = sh.pauseCount) :
    Resumed job (sh.beginGet job w) (f ::ₘ rest) := by
  unfold Shared.beginGet
  split_ifs with safe
  · constructor
    · simpa [List.countP_append,List.countP_singleton,safe] using resumed.calls
    · intro empty
      obtain ⟨count,light,seen⟩ := resumed.unpaused empty
      refine ⟨count,?_,seen⟩
      rw [weigh_cons,sees,count,light]
  · constructor
    · simp only [Shared.resume,List.countP_append,List.countP_singleton,safe]
      rw [resumed.calls]
      exact (List.replicate_succ' ..).symm
    · intro empty
      simp [Shared.resume] at empty

theorem Resumed.endGet {sh : Shared L D E} {bag : Multiset (Frame L D E)} (resumed : Resumed job sh bag)
    (w target : ModuleWrapper L D) (count : Nat) (result : Except E Int)
    (sees : sh.queueCalls = [] → count = 0) : Resumed job (sh.endGet w target count result) bag := by
  refine ⟨resumed.calls,fun empty => ?_⟩
  obtain ⟨unpaused,light,seen⟩ := resumed.unpaused empty
  refine ⟨unpaused,light,fun g member => ?_⟩
  rcases List.mem_append.mp member with before | new
  · exact seen g before
  · obtain rfl := List.mem_singleton.mp new
    exact ⟨sees empty,unpaused⟩

/-- A frame that is not at the beginning or the end of a call of `get`. -/
theorem Resumed.frames {sh sh' : Shared L D E} {bag bag' : Multiset (Frame L D E)}
    (resumed : Resumed job sh bag) (calls : sh'.queueCalls = sh.queueCalls) (callers : sh'.callers = sh.callers)
    (count : sh'.pauseCount = sh.pauseCount) (gets : sh'.gets = sh.gets)
    (sees : weigh found bag' = weigh found bag) : Resumed job sh' bag' := by
  constructor
  · rw [calls,callers]
    exact resumed.calls
  · rw [calls,count,gets,sees]
    exact resumed.unpaused

theorem Resumed.react {sh : Shared L D E} {f : Frame L D E} {r : Reaction (Shared L D E) (Frame L D E)}
    {rest : Multiset (Frame L D E)} (resumed : Resumed job sh (f ::ₘ rest)) (reacts : Reacts job sh f r) :
    Resumed job r.shared (r.frames + rest) := by
  cases reacts with
  | get region w target label product next known =>
    apply Resumed.beginGet _ w ⟨region,.get w target sh.pauseCount next⟩ rfl
    refine resumed.frames rfl rfl rfl rfl ?_
    simp [found]
  | cached region w target count next wasCached =>
    apply Resumed.endGet
    · refine ⟨resumed.calls,fun empty => ?_⟩
      obtain ⟨unpaused,light,seen⟩ := resumed.unpaused empty
      simp_all [found]
    · intro empty
      obtain ⟨unpaused,light,seen⟩ := resumed.unpaused empty
      simp_all [found]
  | regionEnd region k w target count next =>
    apply Resumed.endGet
    · refine ⟨resumed.calls,fun empty => ?_⟩
      obtain ⟨unpaused,light,seen⟩ := resumed.unpaused empty
      simp_all [found]
    · intro empty
      obtain ⟨unpaused,light,seen⟩ := resumed.unpaused empty
      simp_all [found]
  | decrementLast region t last =>
    refine resumed.frames rfl rfl rfl rfl ?_
    rw [Reaction.frames_mk,List.nil_append,weigh_add,TaskId.found_spawned,weigh_cons]
    rfl
  | _ =>
    refine resumed.frames rfl rfl rfl rfl ?_
    simp [found]

theorem Resumed.next {s t : State L D E} {a : Action L D} (resumed : Resumed job s.shared s.bag)
    (taken : next job s a = some t) : Resumed job t.shared t.bag := by
  cases a with
  | act thread choice =>
    exact Pool.step_invariant (fun _ _ _ _ _ before reacted => before.react (react_reacts reacted)) resumed
      (Queues.step_idle taken).1
  | request w =>
    cases taken
    rw [Pool.bag_spawn]
    exact resumed.frames rfl rfl rfl rfl (by simp [found])
  | reset stream =>
    cases taken
    exact resumed.frames rfl rfl rfl rfl rfl

theorem resumed {s : State L D E} (reachable : Reachable (next job) (initial L D E) s) :
    Resumed job s.shared s.bag := by
  have preserved (s : State L D E) (a : Action L D) (t : State L D E)
      (resumed : Resumed job s.shared s.bag) (_ : True) (taken : next job s a = some t) :
      Resumed job t.shared t.bag := resumed.next taken
  have start : Resumed job (initial L D E).shared (initial L D E).bag :=
    ⟨rfl,fun _ => ⟨rfl,rfl,fun _ member => nomatch member⟩⟩
  exact Reaches.invariant preserved reachable start

theorem resume_balanced {s : State L D E} (reachable : Reachable (next job) (initial L D E) s) :
    Balanced s ↔ ∀ w ∈ s.shared.callers, job.isThreadSafe w = true := by
  have resumed := resumed reachable
  have calls := resumed.calls
  constructor
  · intro balanced w member
    have matched := balanced.matched s.shared.queueCalls (List.prefix_refl _)
    by_contra refused
    have resumes : 0 < s.shared.callers.countP fun w => !job.isThreadSafe w :=
      List.countP_pos_iff.mpr ⟨w,member,by simpa using refused⟩
    rw [calls,List.count_replicate_self,List.count_replicate] at matched
    exact absurd matched (by simpa using Nat.ne_of_gt resumes)
  · intro safe
    have none : (s.shared.callers.countP fun w => !job.isThreadSafe w) = 0 :=
      List.countP_eq_zero.mpr fun w member => by simp [safe w member]
    have empty : s.shared.queueCalls = [] := by rw [calls,none,List.replicate_zero]
    obtain ⟨unpaused,_,seen⟩ := resumed.unpaused empty
    constructor
    · intro earlier before
      rw [empty,List.prefix_nil] at before
      rw [before]
      exact Nat.le_refl 0
    · rw [empty,unpaused]
      rfl
    · intro g member
      obtain ⟨found,left⟩ := seen g member
      rw [found,left]
    · exact fun _ => unpaused

end Machine

def fetching (threadType : ThreadType) : Job Nat Unit Unit where
  filters := [⟨0,threadType,[],[],fun _ => .get 1 () fun _ => .finish⟩]
  producers := [⟨1,.threadSafeBetweenInstances,[],[()],fun _ => .put () 7 .finish⟩]

def fetched : List (Action Nat Unit) :=
  .request ⟨0,.filter 0⟩ ::
    ([0,0,0,0,2,3,3,3,3,3,3,3,3,5,5,5,5,5,4,4,4,3,3,3,1,1,1,3] : List Nat).map fun k => .act k ⟨0,none⟩

theorem resume_balanced_threadSafe : ∃ s,
    Reachable (next (fetching .threadSafeBetweenModules)) (initial Nat Unit Unit) s ∧
      s.shared.callers = [⟨0,.filter 0⟩] ∧ s.shared.gets.length = 1 ∧ Balanced s := by
  obtain ⟨s,ran,callers,gets⟩ : ∃ s,
      execute (next (fetching .threadSafeBetweenModules)) (initial Nat Unit Unit) fetched = some s ∧
        s.shared.callers = [⟨0,.filter 0⟩] ∧ s.shared.gets.length = 1 := ⟨_,rfl,rfl,rfl⟩
  have reachable := execute_reachable _ ran
  refine ⟨s,reachable,callers,gets,(resume_balanced reachable).mpr fun w member => ?_⟩
  rw [callers] at member
  obtain rfl := List.mem_singleton.mp member
  rfl

/-- The only call of `get` has returned, and the queue counts as paused for good. -/
theorem resume_wraps : ∃ s, Reachable (next (fetching .threadUnsafe)) (initial Nat Unit Unit) s ∧
    s.threads.flatten = [] ∧ s.shared.queueCalls = [.resume] ∧ s.shared.pauseCount = 2 ^ 64 - 1 ∧
      s.shared.gets.map (fun g => (g.found,g.left)) = [(0,2 ^ 64 - 1)] ∧ ¬Balanced s := by
  obtain ⟨s,ran,left,calls,count,gets⟩ : ∃ s,
      execute (next (fetching .threadUnsafe)) (initial Nat Unit Unit) fetched = some s ∧
        s.threads.flatten.length = 0 ∧ s.shared.queueCalls = [.resume] ∧ s.shared.pauseCount = 2 ^ 64 - 1 ∧
          s.shared.gets.map (fun g => (g.found,g.left)) = [(0,2 ^ 64 - 1)] := ⟨_,rfl,rfl,rfl,rfl,rfl⟩
  refine ⟨s,execute_reachable _ ran,List.length_eq_zero_iff.mp left,calls,count,gets,fun balanced => ?_⟩
  have matched := balanced.matched [.resume] (calls ▸ List.prefix_refl _)
  exact absurd matched (by decide)

end ToyMtFramework.OpenMP
