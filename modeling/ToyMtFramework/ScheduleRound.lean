import ToyMtFramework.ScheduleCounts
import ToyMtFramework.Core.Acyclic

/-! How a round of a `Schedule` ends. Nothing is left to do once `AllPathsDoneTask`
has no holder any more, and as long as it has one some frame can act. The first follows
who started the modules up to a path, the second what they depend on. -/
namespace ToyMtFramework.Schedule
open Activities Transition

variable {L D E : Type} [DecidableEq L] [DecidableEq D]

def Job.Acyclic (job : Job L D E) : Prop :=
  ∀ w, ¬Relation.TransGen (fun v w => v ∈ job.getters w) w w

theorem getters_known (job : Job L D E) {v w : Wrapper L D} (needed : v ∈ job.getters w) :
    ∃ m, job.module w = some m ∧ ∃ g ∈ m.getters, v = .producer g.1 g.2 := by
  unfold Job.getters at needed
  split at needed
  · simp at needed
  · rename_i m found
    obtain ⟨g,member,rfl⟩ := List.mem_map.mp needed
    exact ⟨m,found,g,member,rfl⟩

theorem module_listed (job : Job L D E) {w : Wrapper L D} {m : Module L D E}
    (found : job.module w = some m) : m ∈ job.filters ++ job.producers := by
  cases w with
  | filter label => exact List.mem_append_left _ (List.mem_of_find?_eq_some found)
  | producer label product => exact List.mem_append_right _ (List.mem_of_find?_eq_some found)

theorem needed_finite (job : Job L D E) : {v | ∃ w, v ∈ job.getters w}.Finite := by
  refine (List.finite_toSet ((job.filters ++ job.producers).flatMap fun m =>
    m.getters.map fun g => .producer g.1 g.2)).subset ?_
  rintro v ⟨w,needed⟩
  obtain ⟨m,found,g,member,rfl⟩ := getters_known job needed
  exact List.mem_flatMap.mpr ⟨m,module_listed job found,List.mem_map.mpr ⟨g,member,rfl⟩⟩

theorem Job.Acyclic.below {job : Job L D E} (acyclic : job.Acyclic) :
    WellFounded fun v w => v ∈ job.getters w :=
  Acyclic.wellFounded_of_acyclic (needed_finite job) acyclic

/-- A ranking of the modules shows that there is no cycle. -/
theorem acyclic_of_rank {job : Job L D E} (rank : Wrapper L D → Nat)
    (descends : ∀ w, ∀ v ∈ job.getters w, rank v < rank w) : job.Acyclic := by
  have below {v w : Wrapper L D} (path : Relation.TransGen (fun v w => v ∈ job.getters w) v w) :
      rank v < rank w := by
    induction path with
    | single needed => exact descends _ _ needed
    | tail _ needed ih => exact ih.trans (descends _ _ needed)
  exact fun w cycle => Nat.lt_irrefl _ (below cycle)

/-- The rank of a wrapper when the producers need nothing. -/
def sourceRank : Wrapper L D → Nat
  | .filter _ => 1
  | .producer _ _ => 0

theorem acyclic_of_sources {job : Job L D E} (sources : ∀ m ∈ job.producers, m.getters = []) :
    job.Acyclic := by
  refine acyclic_of_rank sourceRank ?_
  intro w v needed
  obtain ⟨m,found,g,member,rfl⟩ := getters_known job needed
  cases w with
  | filter label => exact Nat.zero_lt_one
  | producer label product =>
    have listed : m ∈ job.producers := List.mem_of_find?_eq_some found
    simp [sources m listed] at member

/-- The tasks that may be waiting for module `w`. -/
def WaitsFor (job : Job L D E) (w : Wrapper L D) : TaskId L D → Prop
  | .runModule v => w ∈ job.getters v
  | .nextFilter p => ∃ label ∈ job.path p, w = .filter label
  | .allPathsDone => False

def Sourced (job : Job L D E) : Frame L D E → Prop
  | .launch ps => ∀ p ∈ ps, p < job.paths.length
  | .runAsync p => p < job.paths.length
  | .doWorkAsync w t | .node (.waitingTasks w) t => WaitsFor job w t
  | .node (.callback p) t => p < job.paths.length ∧ t = .allPathsDone
  | .prefetch w gs => ∀ g ∈ gs, g ∈ job.getters w
  | _ => True

theorem Sourced.react {job : Job L D E} {sh : Shared L D E} {f : Frame L D E}
    {r : Reaction (Shared L D E) (Frame L D E)} (sourced : Sourced job f)
    (reacts : Reacts job sh f r) : ∀ g ∈ r.frames, Sourced job g := by
  cases reacts with
  | runFilter p i label fatal at_i =>
    have member : label ∈ job.path p := List.mem_of_getElem? at_i
    simpa [Sourced,WaitsFor] using member
  | node l t waiting => simp [Sourced]
  | _ => simp_all [Sourced,WaitsFor]

section Ends
variable {job : Job L D E} {sh : Shared L D E} {bag : Multiset (Frame L D E)}

theorem Counts.owned (counts : Counts job sh bag) {t : TaskId L D} {f : Frame L D E}
    (member : f ∈ bag) (owner : 0 < owns t f) : 0 < sh.refCount t := by
  rw [counts.owners]
  exact weigh_pos member owner

theorem Counts.owner (counts : Counts job sh bag) {t : TaskId L D} (held : 0 < sh.refCount t) :
    ∃ f ∈ bag, 0 < owns t f := by
  rw [counts.owners] at held
  exact (weigh_pos_iff _ _).mp held

omit [DecidableEq L] [DecidableEq D] in
theorem settled_le (sh : Shared L D E) (l : ListId L D) : sh.settled l ≤ 1 := by
  unfold Shared.settled
  split <;> omega

omit [DecidableEq L] [DecidableEq D] in
theorem settled_eq_zero {sh : Shared L D E} {l : ListId L D} :
    sh.settled l = 0 ↔ (sh.list l).waiting = true := by
  unfold Shared.settled
  split <;> simp_all

theorem waits_member (l : ListId L D) (waited : 0 < weigh (waits l) bag) :
    ∃ t, .node l t ∈ bag := by
  obtain ⟨f,member,heavy⟩ := (weigh_pos_iff _ _).mp waited
  cases f with
  | node m t =>
    have same : l = m := by
      by_contra other
      simp [waits,other] at heavy
    exact ⟨t,by rwa [same]⟩
  | _ => simp [waits] at heavy

theorem Counts.acting_waiting (counts : Counts job sh bag) {p : Nat} {f : Frame L D E}
    (member : f ∈ bag) (heavy : 0 < acting p f) : (sh.list (.callback p)).waiting = true := by
  have path := counts.paths p
  have positive := weigh_pos member heavy
  rw [← settled_eq_zero]
  split_ifs at path <;> omega

theorem Counts.working_waiting (counts : Counts job sh bag) {w : Wrapper L D} {f : Frame L D E}
    (member : f ∈ bag) (heavy : 0 < working w f) : (sh.list (.waitingTasks w)).waiting = true := by
  have module := counts.modules w
  have positive := weigh_pos member heavy
  rw [← settled_eq_zero]
  split at module <;> omega

/-- A list is closed only once. -/
theorem Counts.closing_waiting (counts : Counts job sh bag) {l : ListId L D} {e : Option E}
    (member : .doneWaiting l e ∈ bag) : (sh.list l).waiting = true := by
  cases l with
  | waitingTasks w => exact counts.working_waiting member (by simp [working])
  | callback p => exact counts.acting_waiting member (by simp [acting])

/-- Somebody waits in a list that is about to be closed. -/
theorem Counts.closing_awaited (counts : Counts job sh bag) {l : ListId L D} {e : Option E}
    (member : .doneWaiting l e ∈ bag) : ∃ t, .node l t ∈ bag := by
  have waiting := counts.closing_waiting member
  cases l with
  | waitingTasks w =>
    have positive : 0 < weigh (working w) bag := weigh_pos member (by simp [working])
    have module := counts.modules w
    have waiters := counts.waiters w waiting
    split at module
    · rename_i started
      rw [if_pos started] at waiters
      exact waits_member _ (by omega)
    · omega
  | callback p =>
    have positive : 0 < weigh (acting p) bag := weigh_pos member (by simp [acting])
    have path := counts.paths p
    have callbacks := counts.callbacks p waiting
    exact waits_member _ (by split_ifs at path callbacks <;> omega)

/-- In the end every started module is waited for by a path: in its list is a task of
a path, or of a module that was started before. -/
def Ranked (sh : Shared L D E) (bag : Multiset (Frame L D E)) : Prop :=
  ∃ rank : Wrapper L D → Nat, ∀ w, sh.workStarted w = true →
    (sh.list (.waitingTasks w)).waiting = true → ∃ t, .node (.waitingTasks w) t ∈ bag ∧
      ∀ v, t = .runModule v → rank v < rank w

theorem Counts.owner_started (counts : Counts job sh bag) {w : Wrapper L D} {f : Frame L D E}
    (member : f ∈ bag) (owner : 0 < owns (.runModule w) f) : sh.workStarted w = true := by
  have held := counts.owned member owner
  have module := counts.modules w
  by_contra unstarted
  rw [if_neg unstarted] at module
  omega

structure Round (job : Job L D E) (sh : Shared L D E) (bag : Multiset (Frame L D E)) : Prop where
  counts : Counts job sh bag
  sourced : ∀ f ∈ bag, Sourced job f
  ranked : Ranked sh bag

end Ends

section Steps
variable {job : Job L D E} {sh : Shared L D E} {f : Frame L D E}
  {r : Reaction (Shared L D E) (Frame L D E)} {rest : Multiset (Frame L D E)}

/-- The call that starts a module has put a task in its list, which only a path or a
module that is started already can have made. -/
theorem started_ranked {w : Wrapper L D} {added : Nat}
    (counts : Counts job sh (.startWork w added ::ₘ rest))
    (ranked : Ranked sh (.startWork w added ::ₘ rest)) (unstarted : sh.workStarted w = false) :
    Ranked ((sh.start w added).hold (.runModule w)) rest := by
  obtain ⟨rank,ranked⟩ := ranked
  have module := counts.modules w
  rw [if_neg (by simp [unstarted])] at module
  have waiting : (sh.list (.waitingTasks w)).waiting = true := settled_eq_zero.mp (by omega)
  have waiters := counts.waiters w waiting
  rw [if_neg (by simp [unstarted])] at waiters
  simp only [weigh_cons,starting,waits,if_true] at waiters
  obtain ⟨t,member⟩ := waits_member (.waitingTasks w) (by omega : 0 < weigh _ rest)
  have other {l : ListId L D} {v : Wrapper L D} (held : .node l (.runModule v) ∈ rest) : v ≠ w := by
    rintro rfl
    have started := counts.owner_started (Multiset.mem_cons_of_mem held) (w := v) (by simp [owns])
    rw [unstarted] at started
    cases started
  obtain ⟨above,below⟩ : ∃ above, ∀ v, t = .runModule v → rank v < above := by
    cases t with
    | runModule v =>
      refine ⟨rank v + 1,fun u same => ?_⟩
      cases same
      exact Nat.lt_succ_self _
    | nextFilter p | allPathsDone =>
      refine ⟨0,fun u same => ?_⟩
      cases same
  refine ⟨fun u => if u = w then above else rank u,?_⟩
  intro u started still
  by_cases same : u = w
  · subst u
    refine ⟨t,member,?_⟩
    rintro v rfl
    simp only [if_neg (other member),if_true]
    exact below v rfl
  · obtain ⟨t,inside,below⟩ := ranked u (by simpa [Shared.hold,Shared.start,same] using started) still
    have held : .node (.waitingTasks u) t ∈ rest := by simpa using inside
    refine ⟨t,held,?_⟩
    rintro v rfl
    simp only [if_neg (other held),if_neg same]
    exact below v rfl

theorem ranked_react (counts : Counts job sh (f ::ₘ rest)) (ranked : Ranked sh (f ::ₘ rest))
    (reacts : Reacts job sh f r) : Ranked r.shared (r.frames + rest) := by
  have kept (started : ∀ w, r.shared.workStarted w = true → sh.workStarted w = true)
      (waiting : ∀ w, (r.shared.list (.waitingTasks w)).waiting = true →
        (sh.list (.waitingTasks w)).waiting = true)
      (nodes : ∀ w t, f = .node (.waitingTasks w) t → (sh.list (.waitingTasks w)).waiting = false) :
      Ranked r.shared (r.frames + rest) := by
    obtain ⟨rank,ranked⟩ := ranked
    refine ⟨rank,fun w was still => ?_⟩
    obtain ⟨t,member,below⟩ := ranked w (started w was) (waiting w still)
    refine ⟨t,?_,below⟩
    rcases Multiset.mem_cons.mp member with acting | other
    · have closed := nodes w t acting.symm
      rw [waiting w still] at closed
      cases closed
    · exact Multiset.mem_add.mpr (Or.inr other)
  cases reacts with
  | startWork w added unstarted =>
    obtain ⟨rank,after⟩ := started_ranked counts ranked unstarted
    refine ⟨rank,fun u started still => ?_⟩
    obtain ⟨t,member,below⟩ := after u started still
    exact ⟨t,Multiset.mem_add.mpr (Or.inr member),below⟩
  | node l t waiting =>
    refine kept (fun _ started => started) (fun _ still => still) ?_
    rintro w t' same
    cases same
    exact waiting
  | doneWaiting l e =>
    refine kept (fun _ started => started) ?_ (fun _ _ same => by cases same)
    intro w still
    by_cases same : .waitingTasks w = l
    · simp [Shared.setList,same] at still
    · simpa [Shared.setList,same] using still
  | runEmpty p empty | runAsync p nonempty =>
    exact kept (fun _ started => started) (fun w still => by simpa [Shared.setList] using still)
      (fun _ _ same => by cases same)
  | _ => exact kept (fun _ started => started) (fun _ still => still) (fun _ _ same => by cases same)

theorem Round.react (round : Round job sh (f ::ₘ rest)) (reacts : Reacts job sh f r) :
    Round job r.shared (r.frames + rest) := by
  refine ⟨round.counts.react reacts,fun g member => ?_,ranked_react round.counts round.ranked reacts⟩
  rcases Multiset.mem_add.mp member with new | old
  · exact (round.sourced f (Multiset.mem_cons_self f rest)).react reacts g new
  · exact round.sourced g (Multiset.mem_cons_of_mem old)

theorem Round.otherStreamFails {bag : Multiset (Frame L D E)} (round : Round job sh bag) :
    Round job {sh with fatal := true} bag := by
  obtain ⟨⟨owners,modules,paths,schedule,waiters,requested,callbacks,unopened⟩,sourced,ranked⟩ := round
  exact ⟨⟨owners,modules,paths,schedule,waiters,requested,callbacks,unopened⟩,sourced,ranked⟩

end Steps

section Over
variable {job : Job L D E} {sh : Shared L D E} {bag : Multiset (Frame L D E)}

/-- Everything has been launched and `AllPathsDoneTask` has no holder any more. -/
structure Over (sh : Shared L D E) (bag : Multiset (Frame L D E)) : Prop where
  launched : .runPaths ∉ bag
  unheld : sh.refCount .allPathsDone = 0

/-- A path that is not settled holds `AllPathsDoneTask`. -/
theorem Round.path_over (round : Round job sh bag) (quiet : Over sh bag) (p : Nat) :
    sh.refCount (.nextFilter p) = 0 ∧ weigh (acting p) bag = 0 ∧
      weigh (pending job.paths.length p) bag = 0 ∧
      (p < job.paths.length → (sh.list (.callback p)).waiting = false) := by
  have unowned (f : Frame L D E) (member : f ∈ bag) : owns .allPathsDone f = 0 := by
    have owners := round.counts.owners .allPathsDone
    rw [quiet.unheld] at owners
    exact weigh_eq_zero owners.symm member
  have opened : weigh (pending job.paths.length p) bag = 0 := by
    by_contra heavy
    obtain ⟨f,member,heavy⟩ := (weigh_pos_iff _ _).mp (Nat.pos_of_ne_zero heavy)
    have free := unowned f member
    cases f with
    | runPaths => exact quiet.launched member
    | launch ps => simp [owns] at free
    | runAsync q => simp [owns] at free
    | _ => simp [pending] at heavy
  have path := round.counts.paths p
  rw [opened] at path
  by_cases inside : p < job.paths.length
  · have settled : (sh.list (.callback p)).waiting = false := by
      by_contra waiting
      have callbacks := round.counts.callbacks p (by simpa using waiting)
      rw [if_pos inside,opened] at callbacks
      obtain ⟨t,member⟩ := waits_member (.callback p) (by omega : 0 < weigh _ bag)
      have free := unowned _ member
      have source := round.sourced _ member
      simp only [Sourced] at source
      simp [owns,source.2] at free
    rw [if_pos inside,if_pos ⟨rfl,inside⟩,Shared.settled,if_neg (by simp [settled])] at path
    exact ⟨by omega,by omega,opened,fun _ => settled⟩
  · rw [if_neg inside] at path
    exact ⟨by omega,by omega,opened,fun contra => absurd contra inside⟩

/-- A module that is not done has a waiting task, and so has the module that waits. -/
theorem Round.module_over (round : Round job sh bag) (quiet : Over sh bag) (w : Wrapper L D) :
    sh.refCount (.runModule w) = 0 ∧ weigh (working w) bag = 0 := by
  obtain ⟨rank,ranked⟩ := round.ranked
  induction below : rank w using Nat.strong_induction_on generalizing w with
  | _ n ih =>
    subst below
    have module := round.counts.modules w
    have bound := settled_le sh (.waitingTasks w)
    by_contra busy
    have started : sh.workStarted w = true := by
      by_contra unstarted
      rw [if_neg unstarted] at module
      omega
    rw [if_pos started] at module
    obtain ⟨t,member,before⟩ := ranked w started (settled_eq_zero.mp (by omega))
    have held : 0 < sh.refCount t := round.counts.owned member (by simp [owns])
    have source := round.sourced _ member
    cases t with
    | runModule v =>
      have idle := ih (rank v) (before v rfl) v rfl
      omega
    | nextFilter p =>
      have idle := round.path_over quiet p
      omega
    | allPathsDone => exact source

theorem Round.task_over (round : Round job sh bag) (quiet : Over sh bag) (t : TaskId L D) :
    sh.refCount t = 0 := by
  cases t with
  | runModule w => exact (round.module_over quiet w).1
  | nextFilter p => exact (round.path_over quiet p).1
  | allPathsDone => exact quiet.unheld

/-- When `AllPathsDoneTask` has no holder, only refused starts are left over. -/
theorem Round.frames_over (round : Round job sh bag) (quiet : Over sh bag)
    {f : Frame L D E} (member : f ∈ bag) :
    (∃ w added, f = .startWork w added) ∨ f = .execute .allPathsDone ∨ ∃ e, f = .callback e := by
  have unowned (t : TaskId L D) : owns t f = 0 := by
    have owners := round.counts.owners t
    rw [round.task_over quiet t] at owners
    exact weigh_eq_zero owners.symm member
  have resting (w : Wrapper L D) : working w f = 0 :=
    weigh_eq_zero (round.module_over quiet w).2 member
  have still (p : Nat) : acting p f = 0 := weigh_eq_zero (round.path_over quiet p).2.1 member
  cases f with
  | runPaths => exact absurd member quiet.launched
  | launch ps => simpa [owns] using unowned .allPathsDone
  | runAsync p => simpa [owns] using unowned .allPathsDone
  | runFilterAsync p i => simpa [acting] using still p
  | doWorkAsync w t => simpa [owns] using unowned t
  | startWork w added => exact Or.inl ⟨w,added,rfl⟩
  | prefetch w gs => simpa [owns] using unowned (.runModule w)
  | doneWaitingTask t e => simpa [owns] using unowned t
  | decrement t => simpa [owns] using unowned t
  | node l t => simpa [owns] using unowned t
  | execute t =>
    cases t with
    | runModule w => simpa [working] using resting w
    | nextFilter p => simpa [acting] using still p
    | allPathsDone => exact Or.inr (Or.inl rfl)
  | queued w e => simpa [working] using resting w
  | runModule w e => simpa [working] using resting w
  | body w gs values => simpa [working] using resting w
  | doneWaiting l e =>
    cases l with
    | waitingTasks w => simpa [working] using resting w
    | callback p => simpa [acting] using still p
  | filterFinished p i e => simpa [acting] using still p
  | callback e => exact Or.inr (Or.inr ⟨e,rfl⟩)

/-- No task is spawned or executing, no queue holds one and no call is in progress:
all that is left are tasks in lists that are not done. -/
def Quiescent (sh : Shared L D E) (bag : Multiset (Frame L D E)) : Prop :=
  ∀ f ∈ bag, ∃ l t, f = .node l t ∧ (sh.list l).waiting = true

omit [DecidableEq L] [DecidableEq D] in
theorem Quiescent.light (weight : Frame L D E → Nat) (quiescent : Quiescent sh bag)
    (nodes : ∀ l t, weight (.node l t) = 0) : weigh weight bag = 0 := by
  by_contra heavy
  obtain ⟨f,member,heavy⟩ := (weigh_pos_iff _ _).mp (Nat.pos_of_ne_zero heavy)
  obtain ⟨l,t,rfl,_⟩ := quiescent f member
  rw [nodes] at heavy
  exact Nat.lt_irrefl 0 heavy

/-- A task that is still held in a quiescent state waits in a list that is not done. -/
theorem Round.quiescent_node (round : Round job sh bag) (quiescent : Quiescent sh bag)
    {t : TaskId L D} (held : 0 < sh.refCount t) :
    ∃ l, .node l t ∈ bag ∧ (sh.list l).waiting = true := by
  obtain ⟨f,member,owner⟩ := round.counts.owner held
  obtain ⟨l,u,rfl,waiting⟩ := quiescent f member
  have same : t = u := by
    by_contra other
    simp [owns,other] at owner
  exact ⟨l,by rwa [same],waiting⟩

theorem Round.quiescent_module (round : Round job sh bag) (acyclic : job.Acyclic)
    (quiescent : Quiescent sh bag) (w : Wrapper L D) (t : TaskId L D)
    (member : .node (.waitingTasks w) t ∈ bag) : False := by
  induction w using acyclic.below.induction generalizing t with
  | _ w ih =>
    obtain ⟨l,_,same,waiting⟩ := quiescent _ member
    cases same
    have unstarted := quiescent.light (starting w) fun _ _ => rfl
    have resting := quiescent.light (working w) fun _ _ => rfl
    have waited : 0 < weigh (waits (.waitingTasks w)) bag := weigh_pos member (by simp [waits])
    have started : sh.workStarted w = true := by
      rcases round.counts.requested w waited with started | pending
      · exact started
      · omega
    have module := round.counts.modules w
    rw [if_pos started,settled_eq_zero.mpr waiting,resting] at module
    obtain ⟨l,inside,_⟩ := round.quiescent_node quiescent (t := .runModule w) (by omega)
    have source := round.sourced _ inside
    cases l with
    | callback p => simp [Sourced] at source
    | waitingTasks v => exact ih v source _ inside

/-- No round stops before its callback is released. -/
theorem Round.quiescent_released (round : Round job sh bag) (acyclic : job.Acyclic)
    (quiescent : Quiescent sh bag) : sh.released.length = 1 := by
  have schedule := round.counts.schedule
  have resting := quiescent.light ending fun _ _ => rfl
  by_contra unreleased
  obtain ⟨l,member,waiting⟩ := round.quiescent_node quiescent (t := .allPathsDone) (by omega)
  have source := round.sourced _ member
  cases l with
  | waitingTasks w => exact source
  | callback p =>
    have path := round.counts.paths p
    have launched := quiescent.light (pending job.paths.length p) fun _ _ => rfl
    have still := quiescent.light (acting p) fun _ _ => rfl
    rw [if_pos source.1,settled_eq_zero.mpr waiting,launched,still,if_pos ⟨rfl,source.1⟩] at path
    obtain ⟨l,inside,_⟩ := round.quiescent_node quiescent (t := .nextFilter p) (by omega)
    have source := round.sourced _ inside
    cases l with
    | callback q => simp [Sourced] at source
    | waitingTasks w => exact round.quiescent_module acyclic quiescent w _ inside

end Over

end ToyMtFramework.Schedule
