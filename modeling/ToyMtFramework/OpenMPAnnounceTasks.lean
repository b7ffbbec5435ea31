import ToyMtFramework.OpenMPAnnounceMoves

/-! Who has the tasks in his hands that wait for modules, who puts them in a list and takes them out, and which
calls of `doWorkAsync` and of `announce` are under way. A step hands a task on, and a call goes on until the
module is started. -/
namespace ToyMtFramework.OpenMP.Announce
open Activities Transition

variable {L D E : Type}

/-- The region whose end the frame waits for, and the product that is wanted from it. -/
def ListFrame.awaits (f : ListFrame L D E) : Option (Nat × ModuleWrapper L D) :=
  match f.stage with
  | .act (.regionEnd k _ target _ _) => some (k,target)
  | _ => none

def ListFrame.queued (f : ListFrame L D E) : Option (ModuleWrapper L D) :=
  match f.stage with
  | .act (.queued w _) => some w
  | _ => none

/-- The tasks that the thread holds on to or executes. -/
def ListFrame.tasks (f : ListFrame L D E) : List (TaskId L D) :=
  match f.stage with
  | .act (.doWorkAsync _ t) | .act (.node _ t) | .act (.doneWaitingTask t _) | .act (.decrement t) | .add _ t =>
    [t]
  | .act (.prefetch w _) | .act (.execute w) | .act (.runModule w _) | .act (.body w _) | .act (.get w _ _ _)
  | .act (.regionEnd _ w _ _ _) | .act (.doneWaiting w _) => [.runModule w]
  | .walk _ nodes _ | .look _ nodes _ => nodes
  | _ => []

/-- A call of `doWorkAsync` that has put its task in the list is about to exchange `m_workStarted`. -/
def ListFrame.Calls (w : ModuleWrapper L D) (f : ListFrame L D E) : Prop :=
  match f.stage with
  | .act (.startWork v) | .recheck v | .announce v true | .walk v _ true | .look v _ true => v = w
  | _ => False

/-- The nodes that are in the list of a finished module are about to be taken out. -/
def ListFrame.Takes (w : ModuleWrapper L D) (f : ListFrame L D E) : Prop :=
  f.stage = .recheck w ∨ ∃ after, f.stage = .announce w after

def ListFrame.Announces (w : ModuleWrapper L D) (f : ListFrame L D E) : Prop :=
  match f.stage with
  | .announce v _ | .walk v _ _ | .look v _ _ => v = w
  | _ => False

/-- The task is in the list, or will be as soon as `add` goes on. -/
def Joins (sh : ListShared L D E) (bag : Multiset (ListFrame L D E)) (w : ModuleWrapper L D)
    (t : TaskId L D) : Prop :=
  (w,t) ∈ sh.heads ∨ ∃ f ∈ bag, f.stage = .add w t

section Moves
variable [DecidableEq L] [DecidableEq D] {job : Job L D E} {sh : ListShared L D E} {q : Option Nat}
  {f g : ListFrame L D E} {r : Reaction (ListShared L D E) (ListFrame L D E)} {rest bag : Multiset (ListFrame L D E)}
  {w : ModuleWrapper L D} {t : TaskId L D}

omit [DecidableEq L] [DecidableEq D] in
theorem mem_lifted {calls spawned : List (Frame L D E)} {base : ListShared L D E}
    (member : g ∈ (Reaction.mk base (calls.map lift) (spawned.map lift)).frames) :
    ∃ h ∈ (Reaction.mk base.base calls spawned).frames, g = lift h := by
  simp only [Reaction.frames_mk,Multiset.mem_coe,← List.map_append,List.mem_map] at member ⊢
  obtain ⟨h,inside,same⟩ := member
  exact ⟨h,inside,same.symm⟩

theorem plain_still {base : Shared L D E} {stage : Stage L D E} {region : Option Nat}
    {reaction : Reaction (Shared L D E) (Frame L D E)} (plain : Plain base stage)
    (reacts : Reacts job base ⟨region,stage⟩ reaction) : reaction.shared.regions = base.regions ∧
      reaction.shared.list = base.list ∧ reaction.shared.workStarted = base.workStarted := by
  cases reacts with
  | add | parallel | startWork | node | queued | doneWaiting => simp_all [Plain]
  | get _ w =>
    obtain ⟨count,calls,callers,same⟩ := beginGet_eq job base w
    rw [same]
    exact ⟨rfl,rfl,rfl⟩
  | _ => exact ⟨rfl,rfl,rfl⟩

theorem waiting_moves (moves : Moves job sh q f r) (told : (sh.base.list w).waiting = false) :
    (r.shared.base.list w).waiting = false := by
  cases moves with
  | plain region stage reaction plain reacts =>
    rw [(plain_still plain reacts).2.1]
    exact told
  | doneWaiting region v e =>
    simp only [Shared.doneWaiting,Function.update_apply]
    split_ifs
    · rfl
    · exact told
  | _ => exact told

theorem started_moves (moves : Moves job sh q f r) (started : sh.base.workStarted w = true) :
    r.shared.base.workStarted w = true := by
  cases moves with
  | plain region stage reaction plain reacts =>
    rw [(plain_still plain reacts).2.2]
    exact started
  | startWork region v unstarted =>
    simp only [Shared.start,Function.update_apply]
    split_ifs
    · rfl
    · exact started
  | _ => exact started

theorem starting_moves (moves : Moves job sh q f r) (started : r.shared.base.workStarted w = true) :
    sh.base.workStarted w = true ∨ f.Calls w := by
  cases moves with
  | plain region stage reaction plain reacts =>
    rw [(plain_still plain reacts).2.2] at started
    exact Or.inl started
  | startWork region v unstarted =>
    by_cases same : w = v
    · subst same
      exact Or.inr rfl
    · left
      simpa [Shared.start,same] using started
  | _ => exact Or.inl started

/-- Only `doneWaiting` tells a list, and it goes on to `announce`. -/
theorem told_moves (moves : Moves job sh q f r) (told : (r.shared.base.list w).waiting = false) :
    (sh.base.list w).waiting = false ∨ ∃ e, f.stage = .act (.doneWaiting w e) ∧
      ⟨f.region,.announce w false⟩ ∈ r.frames := by
  cases moves with
  | plain region stage reaction plain reacts =>
    rw [(plain_still plain reacts).2.1] at told
    exact Or.inl told
  | doneWaiting region v e =>
    by_cases same : w = v
    · subst same
      exact Or.inr ⟨e,rfl,List.mem_singleton_self _⟩
    · left
      simpa [Shared.doneWaiting,same] using told
  | _ => exact Or.inl told

/-- A task comes to the list when `add` has put its node there. -/
theorem heads_moves (moves : Moves job sh q f r) (listed : (w,t) ∈ r.shared.heads) :
    (w,t) ∈ sh.heads ∨ f.stage = .add w t := by
  cases moves with
  | addFirst region v u | add region v u =>
    rcases List.mem_cons.mp listed with same | old
    · cases same
      exact Or.inr rfl
    · exact Or.inl old
  | announce region v after => exact Or.inl (List.mem_filter.mp listed).1
  | _ => exact Or.inl listed

theorem adds_moves (moves : Moves job sh q f r) (member : g ∈ r.frames) (adds : g.stage = .add w t) :
    (sh.base.list w).waiting = true ∧ f.stage = .act (.doWorkAsync w t) := by
  cases moves with
  | plain region stage reaction plain reacts =>
    obtain ⟨h,_,rfl⟩ := mem_lifted member
    cases adds
  | doWorkAsync region v u waiting =>
    obtain rfl := List.mem_singleton.mp (Multiset.mem_coe.mp member)
    cases adds
    exact ⟨waiting,rfl⟩
  | queued | walk | parallel =>
    rcases List.mem_pair.mp (Multiset.mem_coe.mp member) with rfl | rfl <;> cases adds
  | walked => simp at member
  | _ =>
    obtain rfl := List.mem_singleton.mp (Multiset.mem_coe.mp member)
    cases adds

/-- No task joins a list that has been told. -/
theorem joins_moves (moves : Moves job sh q f r) (told : (sh.base.list w).waiting = false)
    (joins : Joins r.shared (r.frames + rest) w t) : Joins sh (f ::ₘ rest) w t := by
  rcases joins with listed | ⟨g,member,adds⟩
  · rcases heads_moves moves listed with old | adding
    · exact Or.inl old
    · exact Or.inr ⟨f,Multiset.mem_cons_self f rest,adding⟩
  · rcases Multiset.mem_add.mp member with new | old
    · have waiting := (adds_moves moves new adds).1
      rw [told] at waiting
      cases waiting
    · exact Or.inr ⟨g,Multiset.mem_cons_of_mem old,adds⟩

theorem plain_tasks {base : Shared L D E} {region : Option Nat} {stage : Stage L D E} {h : Frame L D E}
    {reaction : Reaction (Shared L D E) (Frame L D E)} (plain : Plain base stage)
    (reacts : Reacts job base ⟨region,stage⟩ reaction) (member : h ∈ reaction.frames) (held : t ∈ (lift h).tasks) :
    t ∈ (lift ⟨region,stage⟩ : ListFrame L D E).tasks ∧ h.region = region := by
  cases reacts with
  | add | parallel | startWork | node | queued | doneWaiting => simp_all [Plain]
  | prefetch _ v u gs =>
    rcases List.mem_pair.mp (Multiset.mem_coe.mp member) with rfl | rfl <;> exact ⟨held,rfl⟩
  | addLate _ v u told =>
    rcases List.mem_pair.mp (Multiset.mem_coe.mp member) with rfl | rfl
    · exact ⟨held,rfl⟩
    · cases held
  | decrementLast _ u last =>
    have spawned : h ∈ (u.spawned region : List (Frame L D E)) := by simpa using member
    cases u with
    | runModule v =>
      obtain rfl := List.mem_singleton.mp spawned
      exact ⟨held,rfl⟩
    | _ => cases spawned
  | push =>
    obtain rfl := List.mem_singleton.mp (Multiset.mem_coe.mp member)
    cases held
  | startRefused | finishedTask | decrement => simp at member
  | _ =>
    obtain rfl := List.mem_singleton.mp (Multiset.mem_coe.mp member)
    exact ⟨held,rfl⟩

/-- How a frame comes to a task. -/
inductive Grasps (sh : ListShared L D E) (q : Option Nat) (f : ListFrame L D E) (t : TaskId L D) :
    Option Nat → Prop
  | keeps (held : t ∈ f.tasks) : Grasps sh q f t f.region
  | starts (w : ModuleWrapper L D) (starts : f.stage = .act (.startWork w)) (task : t = .runModule w)
      (unstarted : sh.base.workStarted w = false) : Grasps sh q f t f.region
  | dequeues (w : ModuleWrapper L D) (e : Option E) (queued : f.stage = .act (.queued w e))
      (task : t = .runModule w) : Grasps sh q f t q
  | takes (w : ModuleWrapper L D) (after : Bool) (announces : f.stage = .announce w after)
      (listed : (w,t) ∈ sh.heads) : Grasps sh q f t f.region
  | opens (w target : ModuleWrapper L D) (found : Nat) (next : Except E Int → Program L D E)
      (gets : f.stage = .act (.get w target found next)) (task : t = .doneTask sh.base.regions target) :
      Grasps sh q f t (some sh.base.regions)

theorem mem_nodes : t ∈ sh.nodes w ↔ (w,t) ∈ sh.heads := by
  constructor
  · intro member
    obtain ⟨x,inside,rfl⟩ := List.mem_map.mp member
    obtain ⟨listed,same⟩ := List.mem_filter.mp inside
    obtain rfl : x.1 = w := by simpa using same
    exact listed
  · intro listed
    exact List.mem_map.mpr ⟨_,List.mem_filter.mpr ⟨listed,by simp⟩,rfl⟩

theorem tasks_moves (moves : Moves job sh q f r) (member : g ∈ r.frames) (held : t ∈ g.tasks) :
    Grasps sh q f t g.region := by
  cases moves with
  | plain region stage reaction plain reacts =>
    obtain ⟨h,inside,rfl⟩ := mem_lifted member
    obtain ⟨before,same⟩ := plain_tasks plain reacts inside held
    have unmoved : (lift h).region = region := same
    rw [unmoved]
    exact .keeps before
  | startWork region v unstarted =>
    obtain rfl := List.mem_singleton.mp (Multiset.mem_coe.mp member)
    exact .starts v rfl (List.mem_singleton.mp held) unstarted
  | queued region v e queue =>
    rcases List.mem_pair.mp (Multiset.mem_coe.mp member) with rfl | rfl
    · exact .dequeues v e rfl (List.mem_singleton.mp held)
    · cases held
  | parallel region v target found next missing =>
    rcases List.mem_pair.mp (Multiset.mem_coe.mp member) with rfl | rfl
    · exact .opens v target found next rfl (List.mem_singleton.mp held)
    · exact .keeps held
  | announce region v after =>
    obtain rfl := List.mem_singleton.mp (Multiset.mem_coe.mp member)
    exact .takes v after rfl (mem_nodes.mp held)
  | walk region v u nodes after =>
    rcases List.mem_pair.mp (Multiset.mem_coe.mp member) with rfl | rfl
    · obtain rfl := List.mem_singleton.mp held
      exact .keeps List.mem_cons_self
    · exact .keeps (List.mem_cons_of_mem u held)
  | walked => simp at member
  | doWorkAsync | look =>
    obtain rfl := List.mem_singleton.mp (Multiset.mem_coe.mp member)
    exact .keeps held
  | _ =>
    obtain rfl := List.mem_singleton.mp (Multiset.mem_coe.mp member)
    cases held

/-- A call goes on in its region until it has found or made the module started. -/
theorem calls_moves (moves : Moves job sh q f r) (calls : f.Calls w) :
    (∃ g ∈ r.frames, g.region = f.region ∧ g.Calls w) ∨ r.shared.base.workStarted w = true := by
  cases moves with
  | plain region stage reaction plain reacts =>
    right
    rw [(plain_still plain reacts).2.2]
    cases stage with
    | startWork v =>
      obtain rfl : v = w := calls
      exact plain
    | _ => exact calls.elim
  | startWork region v unstarted =>
    obtain rfl : v = w := calls
    right
    simp [Shared.start]
  | recheckWaiting | recheck | walkedOn => exact Or.inl ⟨_,List.mem_singleton_self _,rfl,calls⟩
  | announce region v after | look region v nodes after =>
    cases after with
    | true => exact Or.inl ⟨_,List.mem_singleton_self _,rfl,calls⟩
    | false => exact calls.elim
  | walk region v u nodes after =>
    cases after with
    | true => exact Or.inl ⟨_,List.mem_cons_of_mem _ (List.mem_singleton_self _),rfl,calls⟩
    | false => exact calls.elim
  | _ => exact calls.elim

/-- A call goes on when it has put its task in the list. -/
theorem added_calls (moves : Moves job sh q f r) (adds : f.stage = .add w t) :
    ∃ g ∈ r.frames, g.region = f.region ∧ g.Calls w := by
  cases moves <;> cases adds <;> exact ⟨_,List.mem_singleton_self _,rfl,rfl⟩

theorem announces_moves (moves : Moves job sh q f r) (member : g ∈ r.frames) (announces : g.Announces w) :
    f.Announces w ∨ (r.shared.base.list w).waiting = false := by
  cases moves with
  | plain region stage reaction plain reacts =>
    obtain ⟨h,_,rfl⟩ := mem_lifted member
    exact announces.elim
  | doneWaiting region v e =>
    obtain rfl := List.mem_singleton.mp (Multiset.mem_coe.mp member)
    obtain rfl : v = w := announces
    right
    simp [Shared.doneWaiting]
  | recheck region v told =>
    obtain rfl := List.mem_singleton.mp (Multiset.mem_coe.mp member)
    obtain rfl : v = w := announces
    exact Or.inr told
  | announce | look =>
    obtain rfl := List.mem_singleton.mp (Multiset.mem_coe.mp member)
    exact Or.inl announces
  | walk region v u nodes after =>
    rcases List.mem_pair.mp (Multiset.mem_coe.mp member) with rfl | rfl
    · exact announces.elim
    · exact Or.inl announces
  | queued | parallel =>
    rcases List.mem_pair.mp (Multiset.mem_coe.mp member) with rfl | rfl <;> exact announces.elim
  | walked => simp at member
  | _ =>
    obtain rfl := List.mem_singleton.mp (Multiset.mem_coe.mp member)
    exact announces.elim

/-- Whoever is inside `announce` of a list finds its module finished. -/
theorem told_after (told : ∀ g ∈ f ::ₘ rest, ∀ w, g.Announces w → (sh.base.list w).waiting = false)
    (moves : Moves job sh q f r) (member : g ∈ r.frames + rest) (announces : g.Announces w) :
    (r.shared.base.list w).waiting = false := by
  rcases Multiset.mem_add.mp member with new | old
  · rcases announces_moves moves new announces with before | finished
    · exact waiting_moves moves (told f (Multiset.mem_cons_self f rest) w before)
    · exact finished
  · exact waiting_moves moves (told g (Multiset.mem_cons_of_mem old) w announces)

theorem announced_moves (moves : Moves job sh q f r) (member : g ∈ r.frames) (announces : g.stage = .announce w false) :
    ∃ e, f.stage = .act (.doneWaiting w e) ∧ g.region = f.region := by
  cases moves with
  | plain region stage reaction plain reacts =>
    obtain ⟨h,_,rfl⟩ := mem_lifted member
    cases announces
  | doneWaiting region v e =>
    obtain rfl := List.mem_singleton.mp (Multiset.mem_coe.mp member)
    cases announces
    exact ⟨e,rfl,rfl⟩
  | queued | walk | parallel =>
    rcases List.mem_pair.mp (Multiset.mem_coe.mp member) with rfl | rfl <;> cases announces
  | walked => simp at member
  | _ =>
    obtain rfl := List.mem_singleton.mp (Multiset.mem_coe.mp member)
    cases announces

/-- Whoever is about to take the nodes of a finished module does so. -/
theorem takes_moves (moves : Moves job sh q f r) (told : (sh.base.list w).waiting = false) (takes : f.Takes w) :
    (∃ g ∈ r.frames, g.region = f.region ∧ g.Takes w) ∨ r.shared.nodes w = [] := by
  rcases takes with rechecks | ⟨after,announces⟩
  · cases moves with
    | recheckWaiting region v waiting =>
      cases rechecks
      rw [told] at waiting
      cases waiting
    | recheck region v told =>
      cases rechecks
      exact Or.inl ⟨_,List.mem_singleton_self _,rfl,Or.inr ⟨true,rfl⟩⟩
    | _ => cases rechecks
  · cases moves with
    | announce region v after =>
      cases announces
      right
      simp [ListShared.nodes]
    | _ => cases announces

/-- Nodes are put on top of a list, one by one, and taken out all at once. -/
theorem nodes_moves (moves : Moves job sh q f r) (w : ModuleWrapper L D) :
    r.shared.nodes w = sh.nodes w ∨ (∃ t, f.stage = .add w t ∧ r.shared.nodes w = t :: sh.nodes w) ∨
      (∃ after, f.stage = .announce w after) ∧ r.shared.nodes w = [] := by
  cases moves with
  | addFirst region v t | add region v t =>
    by_cases same : v = w
    · subst same
      exact Or.inr (Or.inl ⟨t,rfl,by simp [ListShared.nodes]⟩)
    · exact Or.inl (by simp [ListShared.nodes,same])
  | announce region v after =>
    by_cases same : v = w
    · subst same
      exact Or.inr (Or.inr ⟨⟨after,rfl⟩,by simp [ListShared.nodes]⟩)
    · left
      simp only [ListShared.nodes,List.filter_filter]
      congr 2
      ext x
      by_cases own : x.1 = w
      · simp [own,Ne.symm same]
      · simp [own]
  | _ => exact Or.inl rfl

theorem added_nodes (moves : Moves job sh q f r) (adds : f.stage = .add w t) :
    r.shared.nodes w = t :: sh.nodes w := by
  cases moves <;> cases adds <;> simp [ListShared.nodes]

theorem announced_nodes (moves : Moves job sh q f r) {after : Bool} (announces : f.stage = .announce w after) :
    r.shared.nodes w = [] := by
  cases moves <;> cases announces
  simp [ListShared.nodes]

/-- The first one who puts a node in an empty list looks at `m_waiting` again. -/
theorem fills_moves (moves : Moves job sh q f r) (empty : sh.nodes w = []) (filled : r.shared.nodes w ≠ []) :
    ∃ t, f.stage = .add w t ∧ ∃ g ∈ r.frames, g.region = f.region ∧ g.Takes w := by
  have gone (t : TaskId L D) : (w,t) ∉ sh.heads := by
    rw [← mem_nodes,empty]
    exact List.not_mem_nil
  obtain ⟨t,member⟩ := List.exists_mem_of_ne_nil _ filled
  rcases heads_moves moves (mem_nodes.mp member) with old | adds
  · exact absurd old (gone t)
  · refine ⟨t,adds,?_⟩
    cases moves with
    | addFirst region v u =>
      cases adds
      exact ⟨_,List.mem_singleton_self _,rfl,Or.inl rfl⟩
    | add region v u nonempty =>
      cases adds
      exact absurd empty nonempty
    | _ => cases adds

omit [DecidableEq L] [DecidableEq D] in
/-- What waits in a list, or is about to, is a node for the modules. -/
theorem joins_view (joins : Joins sh bag w t) : node w t ∈ sh.view bag := by
  rcases joins with listed | ⟨g,member,adds⟩
  · exact mem_view.mpr (Or.inr ⟨_,listed,rfl⟩)
  · exact mem_view.mpr (Or.inl ⟨g,member,by simp [ListFrame.view,adds]⟩)

/-- Whoever has a task in his hands owns it or executes it. -/
theorem tasks_view (member : g ∈ bag) (held : t ∈ g.tasks) : 0 < weigh (owns t) (sh.view bag) ∨
    ∃ w, t = .runModule w ∧ 0 < weigh (works w) (sh.view bag) := by
  have seen {h : Frame L D E} (inside : h ∈ g.view) : h ∈ sh.view bag := mem_view.mpr (Or.inl ⟨g,member,inside⟩)
  obtain ⟨region,stage⟩ := g
  cases stage with
  | act stage =>
    have inside : ⟨region,stage⟩ ∈ sh.view bag := seen (List.mem_singleton_self _)
    cases stage with
    | doWorkAsync | node | doneWaitingTask | decrement | prefetch =>
      obtain rfl := List.mem_singleton.mp held
      exact Or.inl (weigh_pos inside (by simp [owns]))
    | startWork | queued | finishedTask => cases held
    | _ =>
      obtain rfl := List.mem_singleton.mp held
      exact Or.inr ⟨_,rfl,weigh_pos inside (by simp [works])⟩
  | add w u =>
    obtain rfl := List.mem_singleton.mp held
    exact Or.inl (weigh_pos (seen (List.mem_cons_of_mem _ (List.mem_singleton_self _))) (by simp [node,owns]))
  | walk w nodes after | look w nodes after =>
    refine Or.inl (weigh_pos (seen (List.mem_append_left _ (List.mem_map_of_mem held))) ?_)
    simp [node,owns]
  | recheck | announce => cases held

omit [DecidableEq L] [DecidableEq D] in
theorem mem_nodes_view {h : Frame L D E} {region : Option Nat} {nodes : List (TaskId L D)} {after : Bool}
    (seen : h ∈ nodes.map (node w) ++ resume region w after) :
    (∃ t ∈ nodes, h = node w t) ∨ h.stage = .startWork w := by
  rcases List.mem_append.mp seen with waiting | resumes
  · obtain ⟨t,listed,rfl⟩ := List.mem_map.mp waiting
    exact Or.inl ⟨t,listed,rfl⟩
  · cases after with
    | true =>
      obtain rfl := List.mem_singleton.mp resumes
      exact Or.inr rfl
    | false => cases resumes

omit [DecidableEq L] [DecidableEq D] in
theorem counted {p : Prop} [Decidable p] (counts : 0 < if p then 1 else 0) : p := by
  by_contra fails
  simp [fails] at counts

theorem owns_view {h : Frame L D E} (seen : h ∈ g.view) (owned : 0 < owns t h) : t ∈ g.tasks := by
  obtain ⟨region,stage⟩ := g
  cases stage with
  | act stage =>
    obtain rfl := List.mem_singleton.mp seen
    cases stage with
    | doWorkAsync | node | doneWaitingTask | decrement | prefetch =>
      exact List.mem_singleton.mpr (counted owned)
    | _ => exact absurd owned (Nat.lt_irrefl 0)
  | add w u =>
    rcases List.mem_pair.mp seen with rfl | rfl
    · exact absurd owned (Nat.lt_irrefl 0)
    · exact List.mem_singleton.mpr (counted owned)
  | recheck w =>
    obtain rfl := List.mem_singleton.mp seen
    exact absurd owned (Nat.lt_irrefl 0)
  | announce w after =>
    cases after with
    | true =>
      obtain rfl := List.mem_singleton.mp seen
      exact absurd owned (Nat.lt_irrefl 0)
    | false => cases seen
  | walk w nodes after | look w nodes after =>
    rcases mem_nodes_view seen with ⟨u,listed,rfl⟩ | call
    · obtain rfl : t = u := counted owned
      exact listed
    · simp [owns,call] at owned

theorem works_view {h : Frame L D E} (seen : h ∈ g.view) (working : 0 < works w h) :
    .runModule w ∈ g.tasks ∨ g.queued = some w := by
  obtain ⟨region,stage⟩ := g
  cases stage with
  | act stage =>
    obtain rfl := List.mem_singleton.mp seen
    cases stage with
    | queued v e =>
      obtain rfl : w = v := counted working
      exact Or.inr rfl
    | execute | runModule | body | get | regionEnd | doneWaiting =>
      exact Or.inl (List.mem_singleton.mpr (congrArg TaskId.runModule (counted working)))
    | _ => exact absurd working (Nat.lt_irrefl 0)
  | add w u => rcases List.mem_pair.mp seen with rfl | rfl <;> exact absurd working (Nat.lt_irrefl 0)
  | recheck w =>
    obtain rfl := List.mem_singleton.mp seen
    exact absurd working (Nat.lt_irrefl 0)
  | announce w after =>
    cases after with
    | true =>
      obtain rfl := List.mem_singleton.mp seen
      exact absurd working (Nat.lt_irrefl 0)
    | false => cases seen
  | walk w nodes after | look w nodes after =>
    rcases mem_nodes_view seen with ⟨u,listed,rfl⟩ | call
    · exact absurd working (Nat.lt_irrefl 0)
    · simp [works,call] at working

omit [DecidableEq L] [DecidableEq D] in
theorem waits_eq (f : ListFrame L D E) : regions.waits f = f.awaits.map Prod.fst := by
  obtain ⟨region,stage⟩ := f
  cases stage with
  | act stage => cases stage <;> rfl
  | _ => rfl

omit [DecidableEq L] [DecidableEq D] in
theorem regions_idle {s : State L D E} {x : Nat × ModuleWrapper L D} (awaits : f.awaits = some x)
    (idle : ∀ k, regions.waits f = some k → regions.idle s k = true) : ∀ g ∈ s.bag, g.region ≠ some x.1 := by
  intro g member
  have waits : regions.waits f = some x.1 := by rw [waits_eq,awaits,Option.map_some]
  exact of_decide_eq_true (List.all_eq_true.mp (idle x.1 waits) g (Multiset.mem_coe.mp member))

end Moves
end ToyMtFramework.OpenMP.Announce
