import ToyMtFramework.ProcessAll
import Mathlib.Tactic.SplitIfs

/-! What a thread of a task group can do to the other groups: it gives one of them a task only when
it takes the task from a serial queue. -/
namespace ToyMtFramework.ProcessAll
open Activities Transition
open Schedule (Job Wrapper)
open Schedule.Loop (LoopFrame LoopShared)

variable {L D E : Type}

/-- What a thread of group `i` can do; `owner` is the group that a frame belongs to. -/
structure Turn {F : Type} (owner : F → Option Nat) (N i : Nat) (sh : Shared L D E)
    (r : Reaction (Shared L D E) F) : Prop where
  main : r.shared.main = sh.main
  lists : ∀ j, j ≠ i → (r.shared.streams j).list = (sh.streams j).list
  queued : ∀ q, ∀ t ∈ (r.shared.queues q).tasks, t.group = i ∨ ∃ p, t ∈ (sh.queues p).tasks
  frames : ∀ f ∈ r.frames, ∃ g, owner f = some g ∧ (g = i ∨ (∃ q, ∃ t ∈ (sh.queues q).tasks, t.group = g) ∧
    (r.shared.handedOver = false → sh.main.waited N ≤ g))
  handedOver : r.shared.handedOver = false → sh.handedOver = false

section Turns
variable [DecidableEq L] [DecidableEq D] {job : Job L D E} {N i : Nat} {sh : Shared L D E}
  {r : Reaction (Shared L D E) (Frame L D E)}

structure Picked (N group : Nat) (sh : Shared L D E) (p : Shared L D E × Option (QueuedTask L D E)) :
    Prop where
  main : p.1.main = sh.main
  streams : p.1.streams = sh.streams
  queued : ∀ q, ∀ t ∈ (p.1.queues q).tasks, t ∈ (sh.queues q).tasks
  task : ∀ t ∈ p.2, (∃ q, t ∈ (sh.queues q).tasks) ∧
    (p.1.handedOver = false → t.group = group ∨ sh.main.waited N ≤ t.group)
  handedOver : p.1.handedOver = false → sh.handedOver = false

theorem pickNextTask_picked (N : Nat) (sh : Shared L D E) (q : QueueId L D) (group : Nat) :
    Picked N group sh (sh.pickNextTask N q group) := by
  unfold Shared.pickNextTask
  split
  · rename_i empty
    refine ⟨rfl,rfl,fun p t member => ?_,fun t member => by simp at member,id⟩
    by_cases same : p = q
    · subst p
      simp [Shared.setQueue] at member
    · simpa [Shared.setQueue,same] using member
  · rename_i t ts tasks
    refine ⟨rfl,rfl,fun p u member => ?_,fun u member => ?_,fun none => ?_⟩
    · by_cases same : p = q
      · subst p
        rw [tasks]
        exact List.mem_cons_of_mem t (by simpa [Shared.setQueue] using member)
      · simpa [Shared.setQueue,same] using member
    · obtain rfl := Option.some.inj member
      refine ⟨⟨q,by rw [tasks]; exact List.mem_cons_self⟩,fun none => ?_⟩
      simp at none
      tauto
    · simp at none
      exact none.1

omit [DecidableEq L] [DecidableEq D] in
theorem picked_group {group : Nat} {p : Shared L D E × Option (QueuedTask L D E)}
    (picked : Picked N group sh p) {t : QueuedTask L D E} (some : t ∈ p.2) :
    ∃ g, (Frame.serialTask t).group = Option.some g ∧ (g = group ∨
      (∃ q, ∃ u ∈ (sh.queues q).tasks, u.group = g) ∧ (p.1.handedOver = false → sh.main.waited N ≤ g)) := by
  obtain ⟨⟨q,member⟩,waited⟩ := picked.task t some
  refine ⟨t.group,rfl,?_⟩
  by_cases own : t.group = group
  · exact Or.inl own
  · exact Or.inr ⟨⟨q,t,member,rfl⟩,fun none => (waited none).resolve_left own⟩

theorem push_turn (q : QueueId L D) (t : QueuedTask L D E) : Turn Frame.group N t.group sh (push N sh q t) := by
  let added := sh.setQueue q {sh.queues q with tasks := (sh.queues q).tasks ++ [t]}
  have tasks (p : QueueId L D) (u : QueuedTask L D E) (member : u ∈ (added.queues p).tasks) :
      u.group = t.group ∨ ∃ q, u ∈ (sh.queues q).tasks := by
    by_cases same : p = q
    · subst p
      simp only [added,Shared.setQueue,Function.update_self,List.mem_append,List.mem_singleton] at member
      rcases member with old | new
      · exact Or.inr ⟨_,old⟩
      · exact Or.inl (by rw [new])
    · exact Or.inr ⟨p,by simpa [added,Shared.setQueue,same] using member⟩
  unfold push
  split
  · exact ⟨rfl,fun _ _ => rfl,tasks,fun f member => by simp at member,id⟩
  · have picked := pickNextTask_picked N added q t.group
    refine ⟨picked.main,fun _ _ => by rw [picked.streams]; rfl,
      fun p u member => tasks p u (picked.queued p u member),fun f member => ?_,picked.handedOver⟩
    obtain ⟨u,some,rfl⟩ := List.mem_map.mp (Multiset.mem_coe.mp member)
    obtain ⟨g,group,own | ⟨⟨p,v,inside,rfl⟩,waited⟩⟩ := picked_group picked (Option.mem_toList.mp some)
    · exact ⟨g,group,Or.inl own⟩
    · rcases tasks p v inside with own | ⟨p,old⟩
      · exact ⟨_,group,Or.inl own⟩
      · exact ⟨_,group,Or.inr ⟨⟨p,v,old,rfl⟩,waited⟩⟩

theorem finishedTask_turn (q : QueueId L D) : Turn Frame.group N i sh (finishedTask N sh i q) := by
  have picked := pickNextTask_picked N sh q i
  refine ⟨picked.main,fun _ _ => by rw [← picked.streams]; rfl,
    fun p u member => Or.inr ⟨p,picked.queued p u member⟩,fun f member => ?_,picked.handedOver⟩
  rcases List.mem_append.mp (Multiset.mem_coe.mp member) with here | there
  · obtain ⟨u,some,rfl⟩ := List.mem_map.mp here
    exact picked_group picked (Option.mem_filter_iff.mp (Option.mem_toList.mp some)).1
  · obtain ⟨u,some,rfl⟩ := List.mem_map.mp there
    exact picked_group picked (Option.mem_filter_iff.mp (Option.mem_toList.mp some)).1

omit [DecidableEq L] [DecidableEq D] in
/-- Frames of the own group leave the queues alone. -/
theorem turn_keep {F : Type} {owner : F → Option Nat} {after : Shared L D E} {calls spawned : List F}
    (main : after.main = sh.main) (lists : ∀ j, j ≠ i → (after.streams j).list = (sh.streams j).list)
    (queues : after.queues = sh.queues) (handedOver : after.handedOver = sh.handedOver)
    (frames : ∀ f ∈ calls ++ spawned, owner f = some i) : Turn owner N i sh ⟨after,calls,spawned⟩ := by
  refine ⟨main,lists,fun q t member => Or.inr ⟨q,by rwa [← queues]⟩,fun f member => ?_,fun none => ?_⟩
  · exact ⟨i,frames f (Multiset.mem_coe.mp member),Or.inl rfl⟩
  · rwa [← handedOver]

omit [DecidableEq L] [DecidableEq D] in
theorem run_group {g : Nat} {f : Frame L D E} (member : f ∈ sh.run g) : f.group = some g := by
  unfold Shared.run at member
  split at member
  · rw [List.mem_singleton.mp member]
    rfl
  · simp at member

theorem pushed_group {j : Nat} {f : LoopFrame L D E} {q : QueueId L D} {t : QueuedTask L D E}
    (pushes : pushed job sh j f = some (q,t)) : t.group = j := by
  unfold pushed at pushes
  split at pushes
  · obtain ⟨p,_,same⟩ := Option.map_eq_some_iff.mp pushes
    cases same
    rfl
  · cases pushes

theorem react_turn {f : Frame L D E} {seed : Nat} (group : f.group = some i)
    (reacted : react job N sh f seed = some r) : Turn Frame.group N i sh r := by
  cases f with
  | processAll => cases group
  | stream j f =>
    obtain rfl : j = i := Option.some.inj group
    simp only [react] at reacted
    split at reacted
    · rename_i q t pushes
      cases reacted
      rw [← pushed_group pushes]
      exact push_turn q t
    · obtain ⟨inner,made,rfl⟩ := Option.map_eq_some_iff.mp reacted
      apply turn_keep
      · rfl
      · intro k other
        simp [Shared.setStream,other]
      · rfl
      · rfl
      · intro g member
        rcases List.mem_append.mp member with member | member
        · rcases List.mem_append.mp member with member | member
          · obtain ⟨h,_,rfl⟩ := List.mem_map.mp member
            rfl
          · obtain ⟨e,_,rfl⟩ := List.mem_map.mp member
            rfl
        · obtain ⟨h,_,rfl⟩ := List.mem_map.mp member
          rfl
  | doneWaiting j e =>
    obtain rfl : j = i := Option.some.inj group
    cases reacted
    exact turn_keep rfl (fun _ _ => rfl) rfl rfl (by simp [Frame.group])
  | decrement j =>
    obtain rfl : j = i := Option.some.inj group
    cases reacted
    exact turn_keep rfl (fun _ _ => rfl) rfl rfl fun f member => run_group member
  | serialTask t =>
    obtain rfl : t.group = i := Option.some.inj group
    simp only [react] at reacted
    split at reacted <;> cases reacted
    exact turn_keep rfl (fun _ _ => rfl) rfl rfl (by simp [Frame.group])
  | finishedTask j q =>
    obtain rfl : j = i := Option.some.inj group
    cases seed with
    | zero =>
      cases reacted
      exact finishedTask_turn q
    | succ n =>
      cases reacted
      refine ⟨rfl,fun _ _ => rfl,fun p t member => Or.inr ⟨p,?_⟩,fun f member => by simp at member,id⟩
      by_cases same : p = q
      · subst p
        simpa [Shared.setQueue] using member
      · simpa [Shared.setQueue,same] using member
  | lastTask j =>
    obtain rfl : j = i := Option.some.inj group
    cases reacted
    exact turn_keep rfl (fun _ _ => rfl) rfl rfl (by simp [Frame.group])
  | recycle j =>
    obtain rfl : j = i := Option.some.inj group
    cases reacted
    exact turn_keep rfl (fun _ _ => rfl) rfl rfl (by simp)

/-- A task in a list that is not done does nothing. -/
theorem react_unparked {f : Frame L D E} {seed : Nat} (reacted : react job N sh f seed = some r) :
    parked sh f = false := by
  unfold parked
  split
  · rename_i j l t
    by_contra waiting
    simp [react,pushed,Schedule.Loop.react,Schedule.react,waiting] at reacted
  · rfl

end Turns

theorem busy_eq {sh after : Shared L D E} {g : Nat} (lists : (after.streams g).list = (sh.streams g).list)
    (f : Frame L D E) : busy after g f = busy sh g f := by
  by_cases group : f.group = some g
  · cases f with
    | stream j f =>
      obtain rfl : j = g := Option.some.inj group
      unfold busy parked
      cases f with
      | schedule f => cases f <;> simp [lists]
      | _ => rfl
    | _ => rfl
  · simp [busy,group]

end ToyMtFramework.ProcessAll
