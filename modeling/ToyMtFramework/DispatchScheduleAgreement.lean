import ToyMtFramework.DispatchSchedulePaths

/-! The Dispatch framework agrees with the single-threaded one. When the callback of the schedule has been
called, which happens once and without an error, the modules that were executed are those that the
single-threaded framework runs in the event, each once, and what they leave behind is the same. -/
namespace ToyMtFramework.DispatchSchedule
open Activities Transition
open Schedule (Job Wrapper performers LogMeans AsSingleThreaded)
open scoped Filter

variable {L D E : Type} [DecidableEq L] [DecidableEq D] {job : Job L D E}

section Steps
variable {plain : job.Plain} {index : Nat} {sh : Shared L D E} {f : Frame L D E}
  {r : Reaction (Shared L D E) (Frame L D E)} {bag rest : Multiset (Frame L D E)}

theorem means_new (ordered : Ordered job sh (f ::ₘ rest)) (prefetching : Prefetching job sh (f ::ₘ rest))
    (meaningful : Meaningful plain index sh (f ::ₘ rest)) (reacts : Reacts job sh f r) :
    ∀ h ∈ r.frames, Means plain index r.shared h := by
  have first := Multiset.mem_cons_self f rest
  have means := meaningful.means f first
  have proper := ordered.proper f first
  have stands := prefetching.stands f first
  have wanted := meaningful.wanted f first
  cases reacts with
  | process p ps =>
    have here : p < job.paths.length := means p (List.mem_cons_self ..)
    have later : ∀ q ∈ ps, q < job.paths.length := fun q member => means q (List.mem_cons_of_mem p member)
    simpa [Means] using And.intro later here
  | presentPath p calm => simpa [Means] using means
  | runAsync p some =>
    have start : Passed plain index sh p 0 := ⟨means,fun j before => absurd before (Nat.not_lt_zero j)⟩
    simpa [Means] using start
  | produceAsync t g gs =>
    have needed := needed_getter (wanted t rfl).needed proper.1
    simpa [Means] using needed
  | notifyNow g b empty =>
    cases b with
    | scheduleCallback =>
      obtain rfl : g = .allPathsDone := proper
      have ended := ended_of_empty ordered.balanced meaningful.paths meaningful.calling first rfl (by simp) empty
      simpa [Means] using ended
    | _ => simp [Means]
  | notify g b busy =>
    cases b with
    | scheduleCallback => simpa [Means] using Awaits.start _ (Nat.pos_of_ne_zero busy)
    | _ => simp [Means]
  | notified g since b became =>
    cases b with
    | scheduleCallback => simpa [Means] using Awaits.found means became
    | _ => simp [Means]
  | get t direct g gs values there =>
    obtain ⟨before,getters,read⟩ := means
    have value := (meaningful.right.cached g there).2
    have later : Means plain index sh (.body t direct gs (values ++ [sh.get g])) :=
      ⟨before ++ [g],by simpa using getters,by simp [read,value]⟩
    simpa using later
  | body t direct values seed returned =>
    have outcome := performed_means meaningful.right means seed
    obtain ⟨_,_,known,_⟩ := stands
    have later : Means plain index (sh.ran t (job.outcome plain.acyclic index t.wrapper))
        (.put t direct (t.puts (job.outcome plain.acyclic index t.wrapper))) := by
      refine ⟨?_,puts_means plain known⟩
      rw [performers_ran]
      exact List.mem_append_right _ (List.mem_singleton.mpr rfl)
    rw [outcome]
    simpa using later
  | putsDone t direct => simpa [Means] using means.1
  | put label product direct put puts known =>
    obtain ⟨ran,values⟩ := means
    have later : Means plain index (sh.setValue label put.1 put.2) (.put (.producer label product) direct puts) :=
      ⟨ran,fun other member => values other (List.mem_cons_of_mem put member)⟩
    simpa using later
  | worked t direct =>
    have ran := prefetching.performer stands
    cases t with
    | filterOnPath p i label =>
      obtain ⟨at_i,passed⟩ := wanted _ rfl
      have next : Means plain index sh (.doNextIfSuccess p i (sh.keep label) true) :=
        ⟨passed,label,at_i,ran,meaningful.right.keep label ran⟩
      cases direct <;> simpa [Shared.informs,Means] using next
    | producer label product => cases direct <;> simp [Shared.informs,Means]
  | noSuccess p i keep => cases proper
  | nextFilter p i calm more =>
    obtain ⟨passed,label,at_i,ran,kept⟩ := means
    have next : Passed plain index sh p (i + 1) := by
      refine ⟨passed.inside,fun j before other at_j => ?_⟩
      rcases Nat.lt_succ_iff_lt_or_eq.mp before with early | rfl
      · exact passed.kept j early other at_j
      · obtain rfl := Option.some.inj (at_i.symm.trans at_j)
        exact ⟨ran,kept.symm⟩
    simpa [Means] using next
  | _ => simp [Means,Shared.waits]

/-- What other frames have stays what the event means. -/
theorem means_keep (ordered : Ordered job sh (f ::ₘ rest)) (meaningful : Meaningful plain index sh (f ::ₘ rest))
    (reacts : Reacts job sh f r) (balanced : Balanced owes r.shared.groups (r.frames + rest))
    (paths : ∀ p < job.paths.length, (∃ h ∈ r.frames + rest, OnPath p h) ∨ Ended plain index r.shared p)
    (calling : weigh DispatchSchedule.calling (r.frames + rest) + r.shared.called.length = 1) :
    ∀ h ∈ rest, Means plain index r.shared h := by
  intro h member
  have means := meaningful.means h (Multiset.mem_cons_of_mem member)
  cases h with
  | runFilterAsync p i => exact Passed.react means reacts
  | put t direct puts => exact ⟨logged_react reacts means.1,means.2⟩
  | setWasRun t direct => exact logged_react reacts means
  | doNextIfSuccess p i keep success =>
    obtain ⟨passed,label,at_i,ran,kept⟩ := means
    exact ⟨passed.react reacts,label,at_i,logged_react reacts ran,kept⟩
  | notified g since b =>
    cases b with
    | scheduleCallback =>
      obtain rfl : g = .allPathsDone := ordered.proper _ (Multiset.mem_cons_of_mem member)
      have here := Multiset.mem_add.mpr (Or.inr member : _ ∈ r.frames ∨ _)
      exact Awaits.step means (advances_react reacts) (fun ended => ended.react reacts)
        (ended_of_empty balanced paths calling here rfl (by simp))
    | _ => trivial
  | block b =>
    cases b with
    | scheduleCallback => exact AllEnded.react means reacts
    | _ => trivial
  | _ => exact means

theorem Meaningful.react (ordered : Ordered job sh (f ::ₘ rest)) (prefetching : Prefetching job sh (f ::ₘ rest))
    (meaningful : Meaningful plain index sh (f ::ₘ rest)) (reacts : Reacts job sh f r) :
    Meaningful plain index r.shared (r.frames + rest) := by
  have first := Multiset.mem_cons_self f rest
  have means := meaningful.means f first
  have wanted := meaningful.wanted f first
  have balanced := (ordered.react reacts).balanced
  have paths (p : Nat) (inside : p < job.paths.length) :
      (∃ h ∈ r.frames + rest, OnPath p h) ∨ Ended plain index r.shared p := by
    rcases meaningful.paths p inside with ⟨h,member,on⟩ | ended
    · rcases Multiset.mem_cons.mp member with rfl | old
      · refine (onPath_react ordered.calm (ordered.proper _ first) means on reacts).imp ?_ id
        rintro ⟨g,new,on⟩
        exact ⟨g,Multiset.mem_add.mpr (Or.inl new),on⟩
      · exact Or.inl ⟨h,Multiset.mem_add.mpr (Or.inr old),on⟩
    · exact Or.inr (ended.react reacts)
  have calling : weigh DispatchSchedule.calling (r.frames + rest) + r.shared.called.length = 1 := by
    have before := meaningful.calling
    have change := calling_react reacts
    rw [weigh_cons] at before
    rw [weigh_add]
    omega
  refine ⟨meaningful.right.react (prefetching.stands f first) wanted means reacts,fun h member => ?_,
    fun h member => ?_,paths,calling,called_react ordered.calm meaningful.called means reacts⟩
  · rcases Multiset.mem_add.mp member with new | old
    · exact wanted_new wanted means reacts h new
    · exact fun t worker => (meaningful.wanted h (Multiset.mem_cons_of_mem old) t worker).react reacts
  · rcases Multiset.mem_add.mp member with new | old
    · exact means_new ordered prefetching meaningful reacts h new
    · exact means_keep ordered meaningful reacts balanced paths calling h old

theorem Ready.meaningful (ready : Ready sh index) :
    Meaningful plain index (processing job sh).shared (processing job sh).bag := by
  have bag : (processing job sh).bag = {.process (List.range job.paths.length)} := rfl
  rw [bag]
  refine ⟨⟨ready.eventIndex,?_,?_,?_,?_⟩,?_,?_,?_,?_,?_⟩
  · simp [processing,ready.log]
  · simp [processing,ready.log,performers]
  · simp [processing,ready.wasCached]
  · simp [processing,ready.log,performers]
  · simp [Frame.worker]
  · simp [Means]
  · intro p inside
    left
    simpa [OnPath] using inside
  · simp [DispatchSchedule.calling,processing,ready.called]
  · simp [processing,ready.called]

theorem meaningful_next {s t : State L D E} {a : Nat × Nat} (holds : Ordered job s.shared s.bag ∧
    Prefetching job s.shared s.bag ∧ Meaningful plain index s.shared s.bag) (taken : next job s a = some t) :
    Ordered job t.shared t.bag ∧ Prefetching job t.shared t.bag ∧ Meaningful plain index t.shared t.bag := by
  refine Pool.step_invariant (I := fun sh bag => Ordered job sh bag ∧ Prefetching job sh bag ∧
    Meaningful plain index sh bag) ?_ holds taken
  intro sh f choice r rest holds reacted
  obtain ⟨ordered,prefetching,meaningful⟩ := holds
  have reacts := react_reacts reacted
  exact ⟨ordered.react reacts,prefetching.react (plain_putsAll plain) ordered reacts,
    meaningful.react ordered prefetching reacts⟩

/-- What holds in every state of an event of a plain job. -/
theorem reachable_meaningful (plain : job.Plain) (ready : Ready sh index) {s : State L D E}
    (run : Reachable (next job) (processing job sh) s) : Ordered job s.shared s.bag ∧
      Prefetching job s.shared s.bag ∧ Meaningful plain index s.shared s.bag :=
  Reaches.invariant (fun _ _ _ holds _ taken => meaningful_next holds taken) run
    ⟨ready.ordered,ready.prefetching,ready.meaningful⟩

/-- What a module that was run depends on was run. -/
theorem LogRight.depends (right : LogRight plain index sh) {v w : Wrapper L D} (ran : v ∈ performers sh.log)
    (depends : job.DependsOn v w) : w ∈ performers sh.log := by
  induction depends with
  | refl => exact ran
  | tail _ gets ih => exact right.closed _ ih _ gets

/-- When all paths have ended the log has what the event means. -/
theorem Meaningful.logMeans (ordered : Ordered job sh bag) (prefetching : Prefetching job sh bag)
    (meaningful : Meaningful plain index sh bag) (ended : AllEnded plain index sh) :
    LogMeans plain index sh.log := by
  refine ⟨prefetching.bodies_once ordered,fun w => ⟨fun member => ?_,?_⟩,fun w outcome member =>
    (meaningful.right.logged w outcome member).2⟩
  · obtain ⟨outcome,logged⟩ := Schedule.mem_performers.mp member
    exact (meaningful.right.logged w outcome logged).1
  · rintro ⟨path,listed,label,reached,depends⟩
    obtain ⟨p,inside,at_p⟩ := List.getElem_of_mem listed
    have here : job.path p = path := by simp [Schedule.Job.path,inside,at_p]
    rw [← here] at reached
    exact meaningful.right.depends (ended p inside label reached) depends

/-- When the callback has been called it was once, with success, and the log has what the event means. -/
theorem Meaningful.outcome (ordered : Ordered job sh bag) (prefetching : Prefetching job sh bag)
    (meaningful : Meaningful plain index sh bag) (called : sh.called ≠ []) :
    sh.called = [true] ∧ LogMeans plain index sh.log := by
  obtain ⟨ended,success⟩ := meaningful.called called
  refine ⟨?_,meaningful.logMeans ordered prefetching ended⟩
  have once := meaningful.calling
  have some := List.length_pos_iff.mpr called
  obtain ⟨only,one⟩ := List.length_eq_one_iff.mp (show sh.called.length = 1 by omega)
  rw [one,success only (by rw [one,List.mem_singleton])]

end Steps

/-- When the callback has been called, in whatever order the threads have acted, it has been called once,
with success, and the single-threaded framework has done the same in the event. -/
theorem event_agrees (job : Job L D E) (plain : job.Plain) (sh : Shared L D E) (index : Nat)
    (ready : Ready sh index) (s : State L D E) (run : Reachable (next job) (processing job sh) s)
    (called : s.shared.called ≠ []) : s.shared.called = [true] ∧ LogMeans plain index s.shared.log ∧
      ∀ (seed : Nat) (unrun : SingleThreaded.State L D), SingleThreaded.Unrun unrun →
        ∀ᶠ depth in Filter.atTop, ∃ t, SingleThreaded.process job seed index depth unrun = .ok t ∧
          AsSingleThreaded job s.shared.log t := by
  obtain ⟨ordered,prefetching,meaningful⟩ := reachable_meaningful plain ready run
  obtain ⟨once,means⟩ := meaningful.outcome ordered prefetching called
  exact ⟨once,means,fun seed unrun flags => means.agrees seed flags⟩

open Schedule (sharedFilter sharedFilter_plain)

def sharedFilterEvent : List (Nat × Nat) :=
  acts [(4,0),(15,1),(9,2),(7,4),(1,8),(9,9),(3,5),(2,6),(2,7),(1,9),(4,10),(4,12),(11,13),(4,11),(4,14),
    (5,15),(2,3),(2,15)]

set_option maxRecDepth 4096 in
theorem event_agrees_sharedFilter : ∃ s,
    execute (next sharedFilter) (processing sharedFilter (fresh Unit Nat Unit 3)) sharedFilterEvent = some s ∧
      performers s.shared.log = [.producer 1 (),.filter 0] ∧ LogMeans sharedFilter_plain 3 s.shared.log := by
  have ran : (execute (next sharedFilter) (processing sharedFilter (fresh Unit Nat Unit 3))
      sharedFilterEvent).map (fun s => (s.shared.called,performers s.shared.log)) =
      some ([true],[.producer 1 (),.filter 0]) := by decide +kernel
  obtain ⟨s,ran,outcome⟩ := Option.map_eq_some_iff.mp ran
  obtain ⟨called,performed⟩ := Prod.mk.inj outcome
  exact ⟨s,ran,performed,(event_agrees sharedFilter sharedFilter_plain _ 3 (fresh_ready 3) s
    (execute_reachable _ ran) (by simp [called])).2.1⟩

end ToyMtFramework.DispatchSchedule
