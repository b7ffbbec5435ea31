import ToyMtFramework.ScheduleOutcome
import ToyMtFramework.SingleThreadedMeaning

/-! The TBB framework agrees with the single-threaded one. When all paths of an event are
done, the modules that were run are those that the event needs, which are those that
the single-threaded framework runs, and what they leave behind is the same. -/
namespace ToyMtFramework.Schedule
open Activities Transition
open scoped Filter

variable {L D E : Type}

def filtersRan (sh : Shared L D E) : List L :=
  sh.ran.filterMap fun run => match run.wrapper with
    | .filter label => some label
    | .producer _ _ => none

def producersRan (sh : Shared L D E) : List L :=
  sh.ran.filterMap fun run => match run.wrapper with
    | .filter _ => none
    | .producer label _ => some label

theorem mem_filtersRan (sh : Shared L D E) (label : L) :
    label ∈ filtersRan sh ↔ .filter label ∈ sh.ran.map Run.wrapper := by
  simp only [filtersRan,List.mem_filterMap,List.mem_map]
  refine exists_congr fun run => and_congr_right fun _ => ?_
  cases run.wrapper <;> simp

theorem mem_producersRan (sh : Shared L D E) (label : L) :
    label ∈ producersRan sh ↔ ∃ product, .producer label product ∈ sh.ran.map Run.wrapper := by
  simp only [producersRan,List.mem_filterMap,List.mem_map]
  constructor
  · rintro ⟨run,member,equal⟩
    cases found : run.wrapper with
    | filter other => simp [found] at equal
    | producer other product =>
      obtain rfl : other = label := by simpa [found] using equal
      exact ⟨product,run,member,found⟩
  · rintro ⟨product,run,member,found⟩
    exact ⟨run,member,by simp [found]⟩

theorem filtersRan_nodup {sh : Shared L D E} (once : (sh.ran.map Run.wrapper).Nodup) :
    (filtersRan sh).Nodup := by
  unfold filtersRan
  refine List.pairwise_filterMap.mpr ((List.pairwise_map.mp once).imp ?_)
  intro first second distinct label member other also
  cases left : first.wrapper with
  | producer l d => simp [left] at member
  | filter l =>
    cases right : second.wrapper with
    | producer m d => simp [right] at also
    | filter m =>
      obtain rfl : l = label := by simpa [left] using member
      obtain rfl : m = other := by simpa [right] using also
      rintro rfl
      exact distinct (left.trans right.symm)

variable [DecidableEq L] [DecidableEq D] {job : Job L D E}

theorem Ready.meets {sh : Shared L D E} {index : Nat} (ready : Ready sh index) (plain : job.Plain) :
    Meets plain index (processing sh).shared (processing sh).bag := by
  have bag : (processing sh).bag = {.runPaths} := rfl
  rw [bag]
  refine ⟨ready.eventIndex,ready.fatal,?_,?_,?_,?_,?_,?_,?_⟩
  · simp [Thrown,processing,ready.ran]
  · simp [Lawful]
  · intro w done
    simp [Done,processing,ready.waitingTasks] at done
  · intro p inside opened
    simp [weigh,pending,inside] at opened
  · intro w started
    simp [processing,ready.workStarted] at started
  · intro w started
    simp [processing,ready.workStarted] at started
  · simp [processing,ready.ran,ready.waitingTasks,Shared.settled,weigh,closing]

/-- What holds in every state of a round in which no other stream fails. -/
theorem reachable_meets {sh : Shared L D E} {index : Nat} (ready : Ready sh index)
    (plain : job.Plain) {s : State L D E}
    (run : Reaches (next job) (fun _ a => a ≠ .otherStreamFails) (processing sh) s) :
    RoundState job s.shared s.bag ∧ Meets plain index s.shared s.bag := by
  have start : RoundState job (processing sh).shared (processing sh).bag ∧
      Meets plain index (processing sh).shared (processing sh).bag :=
    ⟨ready.state job,ready.meets plain⟩
  have preserved (s : State L D E) (a : Action) (t : State L D E)
      (holds : RoundState job s.shared s.bag ∧ Meets plain index s.shared s.bag)
      (calm : a ≠ .otherStreamFails) (taken : next job s a = some t) :
      RoundState job t.shared t.bag ∧ Meets plain index t.shared t.bag := by
    cases a with
    | act thread seed =>
      refine Pool.step_invariant (I := fun sh bag => RoundState job sh bag ∧ Meets plain index sh bag)
        ?_ holds taken
      intro sh f choice r rest holds reacted
      have reacts := react_reacts reacted
      exact ⟨holds.1.react reacts,holds.2.react holds.1.round holds.1.honest reacts⟩
    | otherStreamFails => exact absurd rfl calm
  exact run.invariant preserved start

section Finished
variable {plain : job.Plain} {index : Nat} {sh : Shared L D E} {bag : Multiset (Frame L D E)}

/-- When nothing holds `AllPathsDoneTask` any more every module that was started is done. -/
theorem Meets.over (meets : Meets plain index sh bag) (round : Round job sh bag) (quiet : Over sh bag)
    (w : Wrapper L D) : (job.Needed plain.acyclic index w ↔ Done sh w) ∧ weigh (closing w) bag = 0 := by
  have settled (v : Wrapper L D) (started : sh.workStarted v = true) : Done sh v := by
    have module := round.counts.modules v
    obtain ⟨unheld,resting⟩ := round.module_over quiet v
    rw [if_pos started,unheld,resting] at module
    by_contra undone
    rw [Shared.settled,if_pos (by simpa [Done] using undone)] at module
    omega
  refine ⟨⟨?_,?_⟩,?_⟩
  · rintro ⟨path,listed,label,reached,depends⟩
    induction depends with
    | refl =>
      obtain ⟨p,inside,at_p⟩ := List.getElem_of_mem listed
      have here : job.path p = path := by simp [Job.path,inside,at_p]
      have path_over := round.path_over quiet p
      rw [← here] at reached
      exact meets.callbacks p inside path_over.2.2.1 (path_over.2.2.2 inside) label reached
    | @tail v w _ needs ih =>
      have started : sh.workStarted v = true := by
        have module := round.counts.modules v
        by_contra unstarted
        rw [if_neg unstarted,Shared.settled,if_neg (by simpa [Done] using ih)] at module
        omega
      rcases meets.inputs v started w needs with done | ⟨f,member,awaits⟩
      · exact done
      · have owner : 0 < owns (.runModule v) f := by
          cases f <;> simp_all [Awaits,owns]
        have held := round.counts.owned member owner
        have unheld := (round.module_over quiet v).1
        omega
  · intro done
    have module := round.counts.modules w
    rw [Shared.settled,if_neg (by simpa [Done] using done)] at module
    by_cases started : sh.workStarted w = true
    · exact meets.started w started
    · rw [if_neg started] at module
      omega
  · have resting := (round.module_over quiet w).2
    have lighter (f : Frame L D E) : closing w f ≤ working w f := by
      cases f <;> simp [closing,working]
    have le := weigh_le lighter bag
    omega

/-- When nothing holds `AllPathsDoneTask` any more the event has the outcome that it means. -/
theorem Meets.outcome_over (meets : Meets plain index sh bag) (round : Round job sh bag) (quiet : Over sh bag) :
    (sh.ran.map Run.wrapper).Nodup ∧
      ∀ w, (w ∈ sh.ran.map Run.wrapper ↔ job.Needed plain.acyclic index w) ∧
        (job.Needed plain.acyclic index w → Right plain index sh w) := by
  have count (v : Wrapper L D) : (sh.ran.map Run.wrapper).count v = sh.settled (.waitingTasks v) := by
    rw [meets.ran,(meets.over round quiet v).2,Nat.zero_add]
  refine ⟨List.nodup_iff_count_le_one.mpr fun v => ?_,fun w => ?_⟩
  · rw [count]
    exact settled_le sh _
  · have needed := (meets.over round quiet w).1
    refine ⟨?_,fun needs => meets.done w (needed.mp needs)⟩
    rw [← List.count_pos_iff,count,needed]
    unfold Shared.settled Done
    cases (sh.list (.waitingTasks w)).waiting <;> simp

/-- A frame that the end of the round is up to is alone. -/
theorem Round.over_ending (round : Round job sh bag) {f : Frame L D E} (member : f ∈ bag) (last : ending f = 1)
    (launched : f ≠ .runPaths) : Over sh bag := by
  have schedule := round.counts.schedule
  obtain ⟨rest,rfl⟩ := Multiset.exists_cons_of_mem member
  rw [weigh_cons,last] at schedule
  refine ⟨fun other => ?_,by omega⟩
  have also : 0 < weigh ending rest :=
    weigh_pos ((Multiset.mem_cons.mp other).resolve_left (Ne.symm launched)) (by simp [ending])
  omega

/-- When all paths are done the event has the outcome that it means. -/
theorem Meets.outcome (meets : Meets plain index sh bag) (round : Round job sh bag)
    (finished : .execute .allPathsDone ∈ bag) : (sh.ran.map Run.wrapper).Nodup ∧
      ∀ w, (w ∈ sh.ran.map Run.wrapper ↔ job.Needed plain.acyclic index w) ∧
        (job.Needed plain.acyclic index w → Right plain index sh w) :=
  meets.outcome_over round (round.over_ending finished (by simp [ending]) (by simp))

end Finished

theorem producersRan_nodup (plain : job.Plain) {sh : Shared L D E}
    (once : (sh.ran.map Run.wrapper).Nodup)
    (known : ∀ run ∈ sh.ran, (job.module run.wrapper).isSome = true) : (producersRan sh).Nodup := by
  unfold producersRan
  refine List.pairwise_filterMap.mpr ((List.pairwise_map.mp once).imp_of_mem ?_)
  intro first second listed also_listed distinct label member other also
  cases left : first.wrapper with
  | filter l => simp [left] at member
  | producer l d =>
    cases right : second.wrapper with
    | filter m => simp [right] at also
    | producer m c =>
      obtain rfl : l = label := by simpa [left] using member
      obtain rfl : m = other := by simpa [right] using also
      rintro rfl
      have same := plain.product_eq (left ▸ known first listed) (right ▸ known second also_listed)
      exact distinct (left.trans (by rw [right,same]))

/-- When `AllPathsDoneTask` executes, the same filters and producers have been run, each
once, with the same decisions and products as in the single-threaded framework. -/
theorem process_agrees (job : Job L D E) (plain : job.Plain) (sh : Shared L D E) (index : Nat)
    (ready : Ready sh index) (s : State L D E)
    (run : Reaches (next job) (fun _ a => a ≠ .otherStreamFails) (processing sh) s)
    (finished : .execute .allPathsDone ∈ s.bag) (seed : Nat) (unrun : SingleThreaded.State L D)
    (flags : SingleThreaded.Unrun unrun) :
    ∀ᶠ depth in Filter.atTop, ∃ t, SingleThreaded.process job seed index depth unrun = .ok t ∧
      (filtersRan s.shared).Nodup ∧ (filtersRan s.shared).Perm t.filtersRun ∧
      (∀ label ∈ t.filtersRun, s.shared.keep label = t.keep label) ∧
      (producersRan s.shared).Nodup ∧ (producersRan s.shared).Perm t.producersRun ∧
      (∀ label ∈ t.producersRun, ∃ product, job.find label product ≠ none) ∧
      ∀ label ∈ t.producersRun, ∀ product, job.find label product ≠ none →
        s.shared.cache label product = ⟨t.value label product,true⟩ := by
  obtain ⟨state,meets⟩ := reachable_meets ready plain run
  obtain ⟨once,outcome⟩ := meets.outcome state.round finished
  have known (w : Wrapper L D) (ran : w ∈ s.shared.ran.map Run.wrapper) :
      (job.module w).isSome = true := plain.needed_known ((outcome w).1.mp ran)
  filter_upwards [SingleThreaded.process_runs plain index seed flags]
  rintro depth ⟨t,returned,sound,ran⟩
  have agrees (w : Wrapper L D) (registered : (job.module w).isSome = true) :
      w ∈ s.shared.ran.map Run.wrapper ↔ SingleThreaded.Ran t w :=
    (outcome w).1.trans (ran w registered).symm
  have filter (label : L) : label ∈ t.filtersRun ↔ t.filterWasRun label = true := by
    rw [← List.count_pos_iff,sound.filtersRun]
    split <;> simp_all
  have producer (label : L) : label ∈ t.producersRun ↔ t.producerWasRun label = true := by
    rw [← List.count_pos_iff,sound.producersRun]
    split <;> simp_all
  have filters (label : L) : label ∈ filtersRan s.shared ↔ label ∈ t.filtersRun := by
    rw [mem_filtersRan,filter]
    constructor
    · intro done
      exact (agrees _ (known _ done)).mp done
    · intro done
      exact (agrees (.filter label) (sound.registered label done)).mpr done
  have producers (label : L) : label ∈ producersRan s.shared ↔ label ∈ t.producersRun := by
    rw [mem_producersRan,producer]
    constructor
    · rintro ⟨product,done⟩
      exact (agrees _ (known _ done)).mp done
    · intro done
      obtain ⟨product,registered⟩ := sound.product label done
      exact ⟨product,(agrees (.producer label product) registered).mpr done⟩
  have once_filters : (filtersRan s.shared).Nodup := filtersRan_nodup once
  have once_producers : (producersRan s.shared).Nodup :=
    producersRan_nodup plain once fun run member => known _ (List.mem_map_of_mem member)
  have single_filters : t.filtersRun.Nodup := by
    refine List.nodup_iff_count_le_one.mpr fun label => ?_
    rw [sound.filtersRun]
    split <;> omega
  have single_producers : t.producersRun.Nodup := by
    refine List.nodup_iff_count_le_one.mpr fun label => ?_
    rw [sound.producersRun]
    split <;> omega
  refine ⟨t,returned,once_filters,
    (List.perm_ext_iff_of_nodup once_filters single_filters).mpr filters,?_,once_producers,
    (List.perm_ext_iff_of_nodup once_producers single_producers).mpr producers,?_,?_⟩
  · intro label member
    have done := (filter label).mp member
    have right := (outcome (.filter label)).2
      ((ran (.filter label) (sound.registered label done)).mp done)
    exact right.trans (sound.keep label done).symm
  · intro label member
    obtain ⟨product,registered⟩ := sound.product label ((producer label).mp member)
    exact ⟨product,Option.isSome_iff_ne_none.mp registered⟩
  · intro label member product found
    have done := (producer label).mp member
    have registered : (job.module (.producer label product)).isSome = true :=
      Option.isSome_iff_ne_none.mpr found
    have right : s.shared.cache label product =
        ⟨job.value plain.acyclic index (.producer label product),true⟩ :=
      (outcome (.producer label product)).2 ((ran (.producer label product) registered).mp done)
    rw [right,sound.value label product registered done]

def sharedFilter : Job Nat Unit Unit where
  filters := [⟨0,.threadUnsafe,[(1,())],[],fun _ _ values => ⟨[],values = [7],none⟩⟩]
  producers := [⟨1,.threadSafeBetweenInstances,[],[()],fun _ index _ => ⟨[((),index + 4)],false,none⟩⟩]
  paths := [[0],[0]]

theorem sharedFilter_plain : sharedFilter.Plain where
  acyclic := acyclic_of_sources (by simp [sharedFilter])
  distinct := by decide
  resolved := by decide
  registered := by decide
  steady := by simp [sharedFilter,Job.modules]
  returns := by simp [sharedFilter,Job.modules]
  single := by simp [sharedFilter]

def sharedFilterRun : List Action :=
  turns [(20,0),(4,4),(3,3),(1,7),(5,8),(3,2),(3,6),(3,9),(3,1),(3,10),(3,5)]

theorem process_agrees_sharedFilter :
    ∃ s, execute (next sharedFilter) (processing (fresh Unit Nat Unit 3)) sharedFilterRun = some s ∧
      .execute .allPathsDone ∈ s.bag ∧ ∀ᶠ depth in Filter.atTop, ∃ t,
        SingleThreaded.process sharedFilter 0 3 depth (SingleThreaded.fresh Nat Unit) = .ok t ∧
        (filtersRan s.shared).Perm t.filtersRun ∧ (producersRan s.shared).Perm t.producersRun := by
  have ran : (execute (next sharedFilter) (processing (fresh Unit Nat Unit 3)) sharedFilterRun).map
      (fun s => s.threads[11]?) = some (some [.execute .allPathsDone]) := rfl
  obtain ⟨s,ran,last⟩ := Option.map_eq_some_iff.mp ran
  have finished : .execute .allPathsDone ∈ s.bag :=
    List.mem_flatten.mpr ⟨_,List.mem_of_getElem? last,List.mem_singleton.mpr rfl⟩
  refine ⟨s,ran,finished,?_⟩
  filter_upwards [process_agrees sharedFilter sharedFilter_plain _ 3 (fresh_ready 3) s
    (execute_reaches sharedFilterRun (by decide) ran) finished 0 _
    SingleThreaded.fresh_unrun]
    with depth agrees
  obtain ⟨t,returned,_,filters,_,_,producers,_⟩ := agrees
  exact ⟨t,returned,filters,producers⟩

end ToyMtFramework.Schedule
