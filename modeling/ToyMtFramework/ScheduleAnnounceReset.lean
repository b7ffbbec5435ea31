import ToyMtFramework.ScheduleAnnounce
import Mathlib.Tactic.SplitIfs

/-! When no event ends inside `doneWaiting`, no list is reset inside `announce`. Such runs are
runs of the event loop whose lists are pools: a node stays in the pool until it is released,
and is only released while the module has finished. -/
namespace ToyMtFramework.Schedule.Announce
open Activities Transition Loop

variable {L D E : Type}

def node (x : Wrapper L D × TaskId L D) : LoopFrame L D E := .schedule (.node (.waitingTasks x.1) x.2)

def abstract : ListFrame L D E → List (LoopFrame L D E)
  | .loop g => [g]
  | .add w t added => [node (w,t),.schedule (.startWork w added)]
  | .recheck w added => [.schedule (.startWork w added)]
  | .announce w after => resume w after
  | .walk w nodes after | .look w nodes after => nodes.map (fun t => node (w,t)) ++ resume w after

def project (sh : ListShared L D E) (bag : Multiset (ListFrame L D E)) : Multiset (LoopFrame L D E) :=
  (bag.bind fun f => (abstract f : Multiset (LoopFrame L D E))) +
    (sh.heads.map node : List (LoopFrame L D E))

@[simp] theorem abstract_loops (gs : List (LoopFrame L D E)) :
    (gs.map ListFrame.loop).flatMap abstract = gs := by
  induction gs with
  | nil => rfl
  | cons g gs ih => simp [abstract,ih]

theorem project_frames (sh : ListShared L D E) (fs : List (ListFrame L D E))
    (rest : Multiset (ListFrame L D E)) :
    project sh (↑fs + rest) = ↑(fs.flatMap abstract) + project sh rest := by
  rw [project,Multiset.add_bind,Multiset.coe_bind,add_assoc]
  rfl

theorem project_cons (sh : ListShared L D E) (f : ListFrame L D E) (rest : Multiset (ListFrame L D E)) :
    project sh (f ::ₘ rest) = ↑(abstract f) + project sh rest := by
  rw [project,Multiset.cons_bind,add_assoc]
  rfl

theorem mem_project {sh : ListShared L D E} {bag : Multiset (ListFrame L D E)} {g : LoopFrame L D E} :
    g ∈ project sh bag ↔ (∃ f ∈ bag, g ∈ abstract f) ∨ ∃ x ∈ sh.heads, node x = g := by
  simp [project]

theorem control_mem {sh : ListShared L D E} {bag : Multiset (ListFrame L D E)} {c : LoopFrame L D E}
    (member : .loop c ∈ bag) : c ∈ project sh bag :=
  mem_project.mpr (Or.inl ⟨.loop c,member,by simp [abstract]⟩)

theorem calling_resume {w v : Wrapper L D} {added : Nat} {after : Option Nat}
    (call : .schedule (.startWork w added) ∈ (resume v after : List (LoopFrame L D E))) :
    w = v ∧ ∃ k, after = some k := by
  cases after with
  | none => nomatch call
  | some k =>
    have same := List.mem_singleton.mp call
    cases same
    exact ⟨rfl,added,rfl⟩

theorem adds_eq_some {sh : ListShared L D E} {g : LoopFrame L D E} {w : Wrapper L D} {t : TaskId L D}
    (adding : adds sh g = some (w,t)) :
    g = .schedule (.doWorkAsync w t) ∧ sh.waiting w = true := by
  unfold adds at adding
  split at adding
  · split at adding
    · cases adding
      exact ⟨rfl,‹_›⟩
    · cases adding
  · cases adding

theorem announcement_cases (g : LoopFrame L D E) : announcement g = [] ∨ ∃ w e,
    g = .schedule (.doneWaiting (.waitingTasks w) e) ∧ announcement g = [.announce w none] := by
  unfold announcement
  split
  · exact Or.inr ⟨_,_,rfl,rfl⟩
  · exact Or.inl rfl

theorem abstract_announcement (g : LoopFrame L D E) : (announcement g).flatMap abstract = [] := by
  unfold announcement
  split <;> rfl

section Machine
variable [DecidableEq L] [DecidableEq D] {job : Job L D E}

/-- Every call of `announce` is on a closed list, and none of them is left from the event before
when the modules are reset one after the other. -/
structure Orderly (job : Job L D E) (sh : ListShared L D E) (bag : Multiset (ListFrame L D E)) : Prop where
  stage : Stage job sh.loop.schedule (project sh bag)
  closed : ∀ w, 0 < weigh (announcing w) bag → sh.waiting w = false
  finished : ∀ c, .loop c ∈ bag → (∀ f, c ≠ .schedule f) → weigh finishing bag = 0
  listed : ∀ c, .loop c ∈ bag → (unlisted job c).Nodup

theorem stage_control {sh : Shared L D E} {bag : Multiset (LoopFrame L D E)} (stage : Stage job sh bag)
    {c : LoopFrame L D E} (member : c ∈ bag) (outside : ∀ f, c ≠ .schedule f) :
    ∃ frames, bag = c ::ₘ frames.map .schedule ∧ Between job sh c frames := by
  have apart (frames : Multiset (Frame L D E)) : c ∉ frames.map LoopFrame.schedule := by
    intro inside
    obtain ⟨f,_,same⟩ := Multiset.mem_map.mp inside
    exact outside f same.symm
  cases stage with
  | processing frames round history => exact absurd member (apart frames)
  | ended frames refused history => exact absurd member (apart frames)
  | between d frames control between fresh history =>
    obtain rfl := (Multiset.mem_cons.mp member).resolve_right (apart frames)
    exact ⟨frames,rfl,between⟩

/-- Between two events there is nothing but refused calls of `doWorkAsync`. -/
theorem Orderly.refused {sh : ListShared L D E} {bag : Multiset (ListFrame L D E)}
    (orderly : Orderly job sh bag) {c : LoopFrame L D E} (member : .loop c ∈ bag)
    (outside : ∀ f, c ≠ .schedule f) {f : Frame L D E} (other : .schedule f ∈ project sh bag) :
    ∃ w added, f = .startWork w added ∧ w ∈ unflagged job c := by
  obtain ⟨frames,bag_eq,between⟩ := stage_control orderly.stage (control_mem member) outside
  rw [bag_eq] at other
  have inside := (Multiset.mem_cons.mp other).resolve_left (outside f).symm
  obtain ⟨g,present,same⟩ := Multiset.mem_map.mp inside
  obtain rfl : g = f := by injection same
  obtain ⟨w,added,rfl,started⟩ := between.refused g present
  exact ⟨w,added,rfl,between.started w started⟩

omit [DecidableEq L] [DecidableEq D] in
theorem resettingList_outside {c : LoopFrame L D E} {w : Wrapper L D} (resets : resettingList c = some w)
    (f : Frame L D E) : c ≠ .schedule f := by
  rintro rfl
  nomatch resets

theorem unlisted_resettingList {c : LoopFrame L D E} {w : Wrapper L D} (resets : resettingList c = some w) :
    unlisted job c = w :: unflagged job c := by
  rcases c with f | e | ⟨_ | ⟨k,ks⟩,_ | _ | _⟩ | ⟨_ | ⟨l,ls⟩,_ | _ | _⟩ <;> cases resets
  · simp [unlisted,unflagged]
  · simp [unlisted,unflagged]

/-- Nobody reads the list that is reset, and it is empty. -/
theorem Orderly.unread {sh : ListShared L D E} {bag : Multiset (ListFrame L D E)}
    (orderly : Orderly job sh bag) {c : LoopFrame L D E} (member : .loop c ∈ bag) {w : Wrapper L D}
    (resets : resettingList c = some w) : weigh (announcing w) bag = 0 ∧ sh.nodes w = [] := by
  have outside := resettingList_outside resets
  have nodup := orderly.listed c member
  rw [unlisted_resettingList resets] at nodup
  have uncalled (added : Nat) : .schedule (.startWork w added) ∉ project sh bag := by
    intro call
    obtain ⟨v,other,same,flagged⟩ := orderly.refused member outside call
    cases same
    exact (List.nodup_cons.mp nodup).1 flagged
  have unlisted (t : TaskId L D) : node (w,t) ∉ project sh bag := by
    intro listed
    obtain ⟨v,added,same,_⟩ := orderly.refused member outside listed
    cases same
  refine ⟨weigh_light fun f present => ?_,List.eq_nil_iff_forall_not_mem.mpr fun t listed => ?_⟩
  · have returned := weigh_eq_zero (orderly.finished c member outside) present
    cases f with
    | announce v after | walk v _ after | look v _ after =>
      simp only [announcing]
      split_ifs with same
      · subst same
        cases after with
        | none => nomatch returned
        | some added =>
          refine (uncalled added (mem_project.mpr (Or.inl ⟨_,present,?_⟩))).elim
          simp [abstract,resume]
      · rfl
    | _ => rfl
  · obtain ⟨x,headed,rfl⟩ := List.mem_map.mp listed
    obtain ⟨inside,same⟩ := List.mem_filter.mp headed
    obtain rfl : x.1 = w := by simpa using same
    exact unlisted x.2 (mem_project.mpr (Or.inr ⟨x,inside,rfl⟩))

section Loops
variable {sh : LoopShared L D E} {g : LoopFrame L D E} {seed : Nat}
  {r : Reaction (LoopShared L D E) (LoopFrame L D E)}

/-- A closed list stays closed until it is reset. -/
theorem loop_closed (reacted : Loop.react job sh g seed = some r) {w : Wrapper L D}
    (closed : (sh.schedule.list (.waitingTasks w)).waiting = false) (kept : resettingList g ≠ some w) :
    (r.shared.schedule.list (.waitingTasks w)).waiting = false := by
  cases g with
  | schedule f =>
    obtain ⟨inner,made,shared,_⟩ := react_schedule reacted
    rw [shared]
    have reacts := react_reacts made
    cases reacts with
    | runEmpty p | runAsync p => simpa [Shared.setList] using closed
    | doneWaiting l e =>
      by_cases same : l = .waitingTasks w
      · simp [Shared.setList,same]
      · simpa [Shared.setList,Ne.symm same] using closed
    | _ => exact closed
  | handleNextEventAsync e =>
    cases e <;> cases reacted <;> exact closed
  | eventReset ks step =>
    rcases ks with _ | ⟨k,ks⟩
    · cases source : sh.source <;> simp only [Loop.react,source] at reacted <;> cases reacted <;> exact closed
    · cases step <;> cases reacted
      · exact closed
      · exact closed
      · have other : w ≠ .producer k.1 k.2 := fun same => kept (by rw [same]; rfl)
        simpa [resetWaitingTasks,Shared.setList,other] using closed
  | scheduleReset ls step =>
    rcases ls with _ | ⟨l,ls⟩
    · cases reacted
      exact closed
    · cases step <;> cases reacted
      · exact closed
      · exact closed
      · have other : w ≠ .filter l := fun same => kept (by rw [same]; rfl)
        simpa [resetWaitingTasks,Shared.setList,other] using closed

/-- The frames that lead to the next event come from each other and from the callback. -/
theorem loop_controls (reacted : Loop.react job sh g seed = some r) {c : LoopFrame L D E}
    (member : c ∈ r.frames) (outside : ∀ f, c ≠ .schedule f) :
    (∀ f, g ≠ .schedule f) ∨ ∃ e, g = .schedule (.callback e) := by
  cases g with
  | schedule f =>
    obtain ⟨inner,made,_,frames⟩ := react_schedule reacted
    rw [frames] at member
    rcases Multiset.mem_add.mp member with inside | next
    · obtain ⟨h,_,same⟩ := Multiset.mem_map.mp inside
      exact absurd same.symm (outside h)
    · cases f with
      | callback e => exact Or.inr ⟨e,rfl⟩
      | _ => nomatch next
  | handleNextEventAsync | eventReset | scheduleReset => exact Or.inl fun f => nofun

theorem wrappers_nodup (job : Job L D E) : (wrappers job).Nodup := by
  apply List.Nodup.append
  · refine (List.nodup_dedup _).map fun k l same => ?_
    obtain ⟨label,product⟩ := Wrapper.producer.inj same
    exact Prod.ext label product
  · exact (List.nodup_dedup _).map fun k l same => Wrapper.filter.inj same
  · intro w produced filtered
    obtain ⟨k,_,rfl⟩ := List.mem_map.mp produced
    obtain ⟨l,_,same⟩ := List.mem_map.mp filtered
    cases same

theorem loop_listed (reacted : Loop.react job sh g seed = some r) (listed : (unlisted job g).Nodup)
    {c : LoopFrame L D E} (member : c ∈ r.frames) : (unlisted job c).Nodup := by
  cases g with
  | schedule f =>
    obtain ⟨inner,made,_,frames⟩ := react_schedule reacted
    rw [frames] at member
    rcases Multiset.mem_add.mp member with inside | next
    · obtain ⟨h,_,rfl⟩ := Multiset.mem_map.mp inside
      exact List.nodup_nil
    · cases f with
      | callback e =>
        obtain rfl := List.mem_singleton.mp next
        exact wrappers_nodup job
      | _ => nomatch next
  | handleNextEventAsync e =>
    cases e with
    | none =>
      cases reacted
      obtain rfl := List.mem_singleton.mp member
      exact wrappers_nodup job
    | some x =>
      cases reacted
      cases member
  | eventReset ks step =>
    rcases ks with _ | ⟨k,ks⟩
    · cases source : sh.source with
      | nil =>
        simp only [Loop.react,source] at reacted
        cases reacted
        cases member
      | cons eventIndex others =>
        simp only [Loop.react,source] at reacted
        cases reacted
        obtain rfl := List.mem_singleton.mp member
        exact listed
    · cases step with
      | wrapper | workStarted =>
        cases reacted
        obtain rfl := List.mem_singleton.mp member
        exact listed
      | waitingTasks =>
        cases reacted
        obtain rfl := List.mem_singleton.mp member
        exact (List.nodup_cons.mp listed).2
  | scheduleReset ls step =>
    rcases ls with _ | ⟨l,ls⟩
    · cases reacted
      obtain rfl := List.mem_singleton.mp member
      exact List.nodup_nil
    · cases step with
      | wrapper | workStarted =>
        cases reacted
        obtain rfl := List.mem_singleton.mp member
        exact listed
      | waitingTasks =>
        cases reacted
        obtain rfl := List.mem_singleton.mp member
        exact (List.nodup_cons.mp listed).2

end Loops

section Steps
variable {sh : ListShared L D E} {f : ListFrame L D E} {rest : Multiset (ListFrame L D E)} {seed : Nat}
  {r : Reaction (ListShared L D E) (ListFrame L D E)}

/-- A call that has yet to exchange the flag is a frame of the call of `doWorkAsync`. -/
theorem calling_project {bag : Multiset (ListFrame L D E)} {w : Wrapper L D} {added : Nat}
    (call : .schedule (.startWork w added) ∈ project sh bag) : 0 < weigh (calling w) bag := by
  rcases mem_project.mp call with ⟨f,member,inside⟩ | ⟨x,_,same⟩
  · apply weigh_pos member
    cases f with
    | loop g =>
      obtain rfl := List.mem_singleton.mp inside
      simp [calling,Loop.calling]
    | add v t k =>
      have same : (.schedule (.startWork w added) : LoopFrame L D E) = .schedule (.startWork v k) := by
        simpa [abstract,node] using inside
      cases same
      simp [calling]
    | recheck v k =>
      have same := List.mem_singleton.mp inside
      cases same
      simp [calling]
    | announce v after =>
      obtain ⟨rfl,k,rfl⟩ := calling_resume inside
      simp [calling]
    | walk v nodes after | look v nodes after =>
      have tail : .schedule (.startWork w added) ∈ (resume v after : List (LoopFrame L D E)) := by
        simpa [abstract,node] using inside
      obtain ⟨rfl,k,rfl⟩ := calling_resume tail
      simp [calling]
  · cases same

theorem add_frames {sh : LoopShared L D E} {w : Wrapper L D} {t : TaskId L D}
    {r : Reaction (LoopShared L D E) (LoopFrame L D E)}
    (reacted : Loop.react job sh (.schedule (.doWorkAsync w t)) seed = some r)
    (waiting : (sh.schedule.list (.waitingTasks w)).waiting = true) :
    r.frames = ↑(abstract (.add w t (sh.schedule.resets w)) : List (LoopFrame L D E)) := by
  obtain ⟨inner,made,_,frames⟩ := react_schedule reacted
  rw [frames]
  have reacts := react_reacts made
  cases reacts with
  | add _ _ known _ => exact Multiset.coe_eq_coe.mpr (List.Perm.swap _ _ _)
  | addLate _ _ known late =>
    rw [waiting] at late
    cases late

/-- A frame that only moves nodes and calls about is no step of the event loop. -/
theorem Orderly.stage_moved (orderly : Orderly job sh (f ::ₘ rest))
    (r : Reaction (ListShared L D E) (ListFrame L D E)) (loop : r.shared.loop = sh.loop)
    (moved : ((r.calls ++ r.spawned).flatMap abstract ++ r.shared.heads.map node).Perm
      (abstract f ++ sh.heads.map node)) :
    Stage job r.shared.loop.schedule (project r.shared (r.frames + rest)) := by
  have same : project r.shared (r.frames + rest) = project sh (f ::ₘ rest) := by
    rw [Reaction.frames,project_frames,project_cons,project,project,add_left_comm,Multiset.coe_add,
      Multiset.coe_eq_coe.mpr moved,← Multiset.coe_add,add_left_comm]
  rw [same,loop]
  exact orderly.stage

theorem Orderly.stage_react (orderly : Orderly job sh (f ::ₘ rest))
    (quiet : ∀ w, resettingFlag f = some w → weigh (calling w) (f ::ₘ rest) = 0)
    (reacted : react job sh f seed = some r) :
    Stage job r.shared.loop.schedule (project r.shared (r.frames + rest)) := by
  have stage := orderly.stage
  cases f with
  | loop g =>
    obtain ⟨made,loops,rfl⟩ := Option.map_eq_some_iff.mp reacted
    have after := stage.react (project_cons sh (.loop g) rest) (fun w resets added call => by
      have busy := calling_project call
      rw [quiet w resets] at busy
      exact Nat.lt_irrefl 0 busy) loops
    cases adding : adds sh g with
    | none =>
      simp only [Reaction.frames,project_frames,List.flatMap_append,abstract_loops,abstract_announcement,
        List.append_nil]
      exact after
    | some x =>
      obtain ⟨w,t⟩ := x
      obtain ⟨rfl,waiting⟩ := adds_eq_some adding
      simp only [Reaction.frames,project_frames,List.append_nil,List.flatMap_cons,List.flatMap_nil]
      rw [add_frames loops waiting] at after
      exact after
  | add w t added =>
    cases reacted
    refine orderly.stage_moved _ rfl ?_
    split_ifs
    · exact List.Perm.swap _ _ _
    · exact List.Perm.swap _ _ _
  | recheck w added =>
    cases reacted
    refine orderly.stage_moved _ rfl ?_
    split_ifs
    · exact List.Perm.refl _
    · exact List.Perm.refl _
  | announce w next =>
    cases reacted
    refine orderly.stage_moved _ rfl ?_
    have split := (List.filter_append_perm (fun x => decide (x.1 = w)) sh.heads).map (node (E := E))
    have taken : (sh.nodes w).map (fun t => node (w,t)) =
        ((sh.heads.filter fun x => x.1 = w).map node : List (LoopFrame L D E)) := by
      rw [ListShared.nodes,List.map_map]
      refine List.map_congr_left fun x member => ?_
      obtain ⟨_,same⟩ := List.mem_filter.mp member
      obtain rfl : x.1 = w := by simpa using same
      rfl
    have left : (sh.heads.filter fun x => x.1 ≠ w) = sh.heads.filter fun x => !decide (x.1 = w) :=
      List.filter_congr fun x _ => by simp
    rw [List.map_append,← taken,← left] at split
    simp only [List.append_nil,List.flatMap_cons,List.flatMap_nil,abstract]
    exact (List.perm_append_comm.append_right _).trans (List.append_assoc .. ▸ split.append_left _)
  | walk w nodes next =>
    cases nodes with
    | nil =>
      cases reacted
      exact orderly.stage_moved _ rfl (by simp [abstract])
    | cons t nodes =>
      cases reacted
      have closed : (sh.loop.schedule.list (.waitingTasks w)).waiting = false :=
        orderly.closed w (weigh_pos (Multiset.mem_cons_self _ _) (by simp [announcing]))
      have split : project sh (.walk w (t :: nodes) next ::ₘ rest) =
          node (w,t) ::ₘ project sh (.look w nodes next ::ₘ rest) := by
        rw [project_cons,project_cons,← Multiset.cons_add]
        rfl
      have released : Loop.react job sh.loop (node (w,t)) seed = some ⟨sh.loop,[.schedule (.doneWaitingTask t
          (sh.loop.schedule.list (.waitingTasks w)).exceptionPtr)],[]⟩ := by
        simp [node,Loop.react,Schedule.react,closed,recursiveTask]
      have after := stage.react split (by
        intro v resets
        cases resets) released
      simp only [Reaction.frames,List.append_nil,project_frames,List.flatMap_cons,List.flatMap_nil,
        ← Multiset.coe_add,add_assoc]
      simp only [Reaction.frames,List.append_nil,project_cons] at after
      exact after
  | look w nodes next =>
    cases reacted
    exact orderly.stage_moved _ rfl (by simp [abstract])

omit [DecidableEq L] [DecidableEq D] in
theorem weigh_loops {weight : ListFrame L D E → Nat} (light : ∀ g, weight (.loop g) = 0)
    (gs : List (LoopFrame L D E)) : weigh weight (↑(gs.map ListFrame.loop) : Multiset (ListFrame L D E)) = 0 := by
  apply weigh_light
  intro f member
  obtain ⟨g,_,rfl⟩ := List.mem_map.mp member
  exact light g

/-- What a frame does that is no step of the event loop. -/
theorem react_moves (reacted : react job sh f seed = some r) (outside : ∀ g, f ≠ .loop g) :
    r.shared.loop = sh.loop ∧ (∀ c, .loop c ∈ r.frames → ∃ h, c = .schedule h) ∧
    weigh finishing r.frames ≤ finishing f ∧
    ∀ w, weigh (announcing w) r.frames ≤ announcing w f ∨ sh.waiting w = false := by
  cases f with
  | loop g => exact absurd rfl (outside g)
  | add w t added =>
    cases reacted
    refine ⟨rfl,fun c member => ?_,?_,fun v => Or.inl ?_⟩
    · split_ifs at member <;> simp_all
    · split_ifs <;> simp [finishing]
    · split_ifs <;> simp [announcing]
  | recheck w added =>
    cases reacted
    cases waiting : sh.waiting w with
    | true => refine ⟨rfl,?_,?_,?_⟩ <;> simp [finishing,announcing]
    | false =>
      refine ⟨rfl,?_,?_,fun v => ?_⟩
      · simp
      · simp [finishing]
      · by_cases same : v = w
        · exact Or.inr (same ▸ waiting)
        · simp [announcing,same]
  | announce w next =>
    cases reacted
    refine ⟨rfl,?_,?_,?_⟩
    · simp
    · cases next <;> simp [finishing]
    · simp [announcing]
  | walk w nodes next =>
    cases nodes with
    | nil =>
      cases reacted
      refine ⟨rfl,fun c member => ?_,?_,fun v => Or.inl ?_⟩
      · cases next with
        | none => nomatch member
        | some added => simp_all [resume]
      · rw [Reaction.frames,List.append_nil,weigh_loops fun g => rfl]
        exact Nat.zero_le _
      · rw [Reaction.frames,List.append_nil,weigh_loops fun g => rfl]
        exact Nat.zero_le _
    | cons t nodes =>
      cases reacted
      refine ⟨rfl,?_,?_,?_⟩
      · simp
      · cases next <;> simp [finishing]
      · simp [announcing]
  | look w nodes next =>
    cases reacted
    refine ⟨rfl,?_,?_,?_⟩
    · simp
    · cases next <;> simp [finishing]
    · simp [announcing]

/-- What a step of the event loop adds to the calls of `announce`. -/
theorem react_loop {g : LoopFrame L D E} (reacted : react job sh (.loop g) seed = some r) : ∃ made,
    Loop.react job sh.loop g seed = some made ∧ r.shared.loop = made.shared ∧
    (∀ c, .loop c ∈ r.frames → c ∈ made.frames) ∧
    weigh finishing r.frames = ((announcement g).map (finishing (E := E))).sum ∧
    ∀ w, weigh (announcing w) r.frames = ((announcement g).map (announcing (E := E) w)).sum := by
  obtain ⟨made,loops,rfl⟩ := Option.map_eq_some_iff.mp reacted
  refine ⟨made,loops,?_⟩
  cases adding : adds sh g with
  | none =>
    have frames : (Reaction.mk {sh with loop := made.shared} (made.calls.map .loop ++ announcement g)
        (made.spawned.map ListFrame.loop)).frames = ↑(made.calls.map ListFrame.loop) +
          ↑(announcement g) + ↑(made.spawned.map ListFrame.loop) := by
      rw [Reaction.frames,Multiset.coe_add,Multiset.coe_add]
    simp only
    rw [frames]
    refine ⟨trivial,fun c member => ?_,?_,fun w => ?_⟩
    · have inside (gs : List (LoopFrame L D E)) (listed : .loop c ∈ gs.map ListFrame.loop) : c ∈ gs := by
        obtain ⟨h,present,same⟩ := List.mem_map.mp listed
        cases same
        exact present
      rcases Multiset.mem_add.mp member with front | spawned
      · rcases Multiset.mem_add.mp front with called | announced
        · exact List.mem_append_left _ (inside _ called)
        · unfold announcement at announced
          split at announced
          · cases List.mem_singleton.mp announced
          · cases announced
      · exact List.mem_append_right _ (inside _ spawned)
    · rw [weigh_add,weigh_add,weigh_loops fun g => rfl,weigh_loops fun g => rfl,weigh_coe]
      omega
    · rw [weigh_add,weigh_add,weigh_loops fun g => rfl,weigh_loops fun g => rfl,weigh_coe]
      omega
  | some x =>
    obtain ⟨rfl,_⟩ := adds_eq_some adding
    refine ⟨rfl,?_,rfl,fun w => rfl⟩
    simp

theorem Orderly.closed_react (orderly : Orderly job sh (f ::ₘ rest)) (reacted : react job sh f seed = some r)
    {w : Wrapper L D} (inside : 0 < weigh (announcing w) (r.frames + rest)) : r.shared.waiting w = false := by
  rw [weigh_add] at inside
  have closed (busy : 0 < announcing w f + weigh (announcing w) rest) : sh.waiting w = false :=
    orderly.closed w (by rwa [weigh_cons])
  by_cases loop : ∃ g, f = .loop g
  · obtain ⟨g,rfl⟩ := loop
    obtain ⟨made,loops,shared,_,_,announced⟩ := react_loop reacted
    rw [announced w] at inside
    rw [ListShared.waiting,shared]
    by_cases busy : 0 < weigh (announcing w) rest
    · refine loop_closed loops (closed (Nat.add_pos_right _ busy)) fun resets => ?_
      have unread := (orderly.unread (Multiset.mem_cons_self _ _) resets).1
      rw [weigh_cons] at unread
      omega
    · have own : 0 < ((announcement g).map (announcing (E := E) w)).sum := by omega
      rcases announcement_cases g with none | ⟨v,e,rfl,one⟩
      · rw [none] at own
        cases own
      · have same : w = v := by
          by_contra other
          simp [one,announcing,other] at own
        obtain ⟨inner,done,after,_⟩ := react_schedule loops
        cases done
        rw [after,same]
        simp [Shared.setList]
  · have outside : ∀ g, f ≠ .loop g := fun g same => loop ⟨g,same⟩
    obtain ⟨shared,_,_,announced⟩ := react_moves reacted outside
    have before : sh.waiting w = false := by
      rcases announced w with fewer | done
      · exact closed (by omega)
      · exact done
    rw [ListShared.waiting,shared]
    exact before

theorem Orderly.finished_react (orderly : Orderly job sh (f ::ₘ rest))
    (ends : endsEvent f = true → weigh finishing (f ::ₘ rest) = 0) (reacted : react job sh f seed = some r)
    {c : LoopFrame L D E} (member : .loop c ∈ r.frames + rest) (outside : ∀ h, c ≠ .schedule h) :
    weigh finishing (r.frames + rest) = 0 := by
  by_cases loop : ∃ g, f = .loop g
  · obtain ⟨g,rfl⟩ := loop
    obtain ⟨made,loops,_,controls,finishes,_⟩ := react_loop reacted
    have before : (∀ h, g ≠ .schedule h) ∨ (∃ e, g = .schedule (.callback e)) ∨ .loop c ∈ rest := by
      rcases Multiset.mem_add.mp member with new | old
      · exact (loop_controls loops (controls c new) outside).imp_right Or.inl
      · exact Or.inr (Or.inr old)
    rcases announcement_cases g with none | ⟨w,e,rfl,_⟩
    · have light : weigh finishing (.loop g ::ₘ rest) = 0 := by
        rcases before with control | ⟨e,rfl⟩ | old
        · exact orderly.finished g (Multiset.mem_cons_self _ _) control
        · exact ends rfl
        · exact orderly.finished c (Multiset.mem_cons_of_mem old) outside
      rw [weigh_cons] at light
      rw [weigh_add,finishes,none]
      simp only [List.map_nil,List.sum_nil]
      omega
    · rcases before with control | ⟨e,same⟩ | old
      · exact absurd rfl (control _)
      · cases same
      · obtain ⟨v,added,same,_⟩ := orderly.refused (Multiset.mem_cons_of_mem old) outside
          (control_mem (Multiset.mem_cons_self _ _))
        cases same
  · have other : ∀ g, f ≠ .loop g := fun g same => loop ⟨g,same⟩
    obtain ⟨_,schedules,fewer,_⟩ := react_moves reacted other
    have old : .loop c ∈ rest := by
      refine (Multiset.mem_add.mp member).resolve_left fun new => ?_
      obtain ⟨h,same⟩ := schedules c new
      exact outside h same
    have before := orderly.finished c (Multiset.mem_cons_of_mem old) outside
    rw [weigh_cons] at before
    rw [weigh_add]
    omega

theorem Orderly.listed_react (orderly : Orderly job sh (f ::ₘ rest)) (reacted : react job sh f seed = some r)
    {c : LoopFrame L D E} (member : .loop c ∈ r.frames + rest) : (unlisted job c).Nodup := by
  rcases Multiset.mem_add.mp member with new | old
  · by_cases loop : ∃ g, f = .loop g
    · obtain ⟨g,rfl⟩ := loop
      obtain ⟨made,loops,_,controls,_,_⟩ := react_loop reacted
      exact loop_listed loops (orderly.listed g (Multiset.mem_cons_self _ _)) (controls c new)
    · obtain ⟨_,schedules,_,_⟩ := react_moves reacted fun g same => loop ⟨g,same⟩
      obtain ⟨h,rfl⟩ := schedules c new
      exact List.nodup_nil
  · exact orderly.listed c (Multiset.mem_cons_of_mem old)

theorem Orderly.react (orderly : Orderly job sh (f ::ₘ rest))
    (quiet : ∀ w, resettingFlag f = some w → weigh (calling w) (f ::ₘ rest) = 0)
    (ends : endsEvent f = true → weigh finishing (f ::ₘ rest) = 0) (reacted : react job sh f seed = some r) :
    Orderly job r.shared (r.frames + rest) :=
  ⟨orderly.stage_react quiet reacted,fun _ inside => orderly.closed_react reacted inside,
    fun _ member outside => orderly.finished_react ends reacted member outside,
    fun _ member => orderly.listed_react reacted member⟩

end Steps

theorem Orderly.initial (job : Job L D E) (source : List Nat) :
    Orderly job (initial L D E source).shared (initial L D E source).bag := by
  have bag : (Announce.initial L D E source).bag = .loop (.handleNextEventAsync none) ::ₘ 0 := rfl
  rw [bag]
  refine ⟨?_,fun w inside => (nomatch inside),fun c member outside => rfl,fun c member => ?_⟩
  · rw [project_cons]
    exact initial_stage job source
  · obtain rfl : c = .handleNextEventAsync none := by simpa using member
    exact wrappers_nodup job

theorem next_orderly {s t : State L D E} {a : Action} (orderly : Orderly job s.shared s.bag)
    (unhurried : Unhurried s a) (taken : next job s a = some t) : Orderly job t.shared t.bag := by
  cases a with
  | act thread seed =>
    obtain ⟨f,r,rest,reacted,shared,before,after,top⟩ := Pool.step_bag taken
    obtain ⟨quiet,ends⟩ := unhurried
    rw [top,before] at quiet ends
    rw [before] at orderly
    rw [shared,after]
    exact orderly.react (fun w resets => quiet w (by simpa using resets)) (fun ended => ends (by simpa using ended))
      reacted
  | otherStreamFails =>
    obtain rfl := Option.some.inj taken
    exact ⟨orderly.stage.fatal,orderly.closed,orderly.finished,orderly.listed⟩

/-- No list of a module is reset while a thread is inside `announce` of it, and no thread is inside
`announce` of a list from its reset until the module has finished again. -/
theorem reset_unread (job : Job L D E) (source : List Nat) (s : State L D E)
    (run : Reaches (next job) Unhurried (initial L D E source) s) (w : Wrapper L D) :
    (∀ c, .loop c ∈ s.bag → resettingList c = some w →
      weigh (announcing w) s.bag = 0 ∧ s.shared.nodes w = []) ∧
    (s.shared.waiting w = true → weigh (announcing w) s.bag = 0) := by
  have orderly := run.invariant (fun _ _ _ orderly unhurried taken => next_orderly orderly unhurried taken)
    (Orderly.initial job source)
  refine ⟨fun c member resets => orderly.unread member resets,fun waiting => ?_⟩
  by_contra busy
  have closed := orderly.closed w (Nat.pos_of_ne_zero busy)
  rw [waiting] at closed
  cases closed

end Machine
end ToyMtFramework.Schedule.Announce
