import ToyMtFramework.ScheduleJournal

/-! The exceptions of the events of a stream, for modules that may throw. The callback of an event
has an exception if and only if a body was ended by one in the same event, and then it is one of these.
A stream that is told of one takes no further event, so nothing is left over for a later one. -/
namespace ToyMtFramework.Schedule.Loop
open Activities Transition

variable {L D E : Type} [DecidableEq L] [DecidableEq D] {job : Job L D E}

def Raised (log : List (Entry L D E)) (e : E) : Prop :=
  ∃ w outcome, .performed w outcome ∈ log ∧ outcome.thrown = some e

structure EventTells (job : Job L D E) (sh : Shared L D E) (bag : Multiset (Frame L D E))
    (log : List (Entry L D E)) : Prop where
  right : EventRight job sh bag log
  past : ∃ past, sh.ran = past ++ executions sh.resets log ∧ ∀ run ∈ past, run.thrown = none

section Events
variable {sh : Shared L D E} {f : Frame L D E} {r : Reaction (Shared L D E) (Frame L D E)}
  {bag rest : Multiset (Frame L D E)} {log es : List (Entry L D E)}

theorem EventTells.thrown_iff (tells : EventTells job sh bag log) (e : E) : Thrown sh e ↔ Raised log e := by
  obtain ⟨past,ran,clean⟩ := tells.past
  unfold Thrown
  rw [ran]
  constructor
  · rintro ⟨run,member,thrown⟩
    rcases List.mem_append.mp member with old | new
    · rw [clean run old] at thrown
      cases thrown
    · obtain ⟨entry,listed,equal⟩ := List.mem_filterMap.mp new
      cases entry with
      | performed w outcome =>
        obtain rfl := Option.some.inj equal
        exact ⟨w,outcome,listed,thrown⟩
      | _ => cases equal
  · rintro ⟨w,outcome,listed,thrown⟩
    exact ⟨⟨w,sh.resets w,outcome.thrown⟩,
      List.mem_append_right _ (List.mem_filterMap.mpr ⟨_,listed,rfl⟩),thrown⟩

theorem EventTells.react (tells : EventTells job sh (f ::ₘ rest) log) (history : History job sh (f ::ₘ rest))
    (going : ∀ e, f ≠ .callback e) (logs : Logs job sh f r es) :
    EventTells job r.shared (r.frames + rest) (log ++ es) := by
  obtain ⟨past,ran,clean⟩ := tells.past
  refine ⟨tells.right.react history going logs,past,?_,clean⟩
  rw [logs.ran,ran,resets_react logs.reacts,executions,executions,executions,List.filterMap_append,List.append_assoc]

theorem EventTells.callback (tells : EventTells job sh bag log) {e : Option E} (member : .callback e ∈ bag) :
    (∀ x, e = some x → Raised log x) ∧ (e = none → ∀ x, ¬Raised log x) := by
  obtain ⟨others,rfl⟩ := Multiset.exists_cons_of_mem member
  constructor
  · rintro x rfl
    exact (tells.thrown_iff x).mp (tells.right.state.honest.frames _ member x rfl)
  · rintro rfl x raised
    have after := tells.right.state.react (.callback none)
    exact after.callback_thrown (e := none) (by simp) ⟨x,(tells.thrown_iff x).mpr raised⟩ rfl

theorem EventTells.begin {step : ResetStep}
    (right : BetweenRight job (some (.scheduleReset [] step)) sh log)
    (between : Between job sh (.scheduleReset [] step) 0) (round : Round job sh {.runPaths}) :
    EventTells job sh {.runPaths} [] := by
  refine ⟨right.begin between round,sh.ran,(List.append_nil _).symm,fun run member => ?_⟩
  by_contra thrown
  obtain ⟨e,failed⟩ := Option.ne_none_iff_exists'.mp thrown
  exact (right.clean _ rfl (by simp)).quiet e ⟨run,member,failed⟩

end Events

theorem tellsRule (job : Job L D E) : Rule job (EventTells job) (Unheld (BetweenRight job)) :=
  Rule.unheld {
    start := BetweenRight.start job
    blank := fun _ tells _ member => tells.right.blanks member
    react := fun _ history tells going logs => tells.react history going logs
    release := fun _ tells => tells.right.release
    control := fun acts right => right.controls acts
    begin := fun between round right => EventTells.begin right between round
    fatalInside := fun tells => ⟨tells.right.fatal,tells.past⟩
    fatalOutside := fun right => right.fatal }

structure Reporting (job : Job L D E) (sh : Shared L D E) (log : List (Entry L D E))
    (bag : Multiset (LoopFrame L D E)) (j : Journal L D E) : Prop where
  phase : Phase job (EventTells job) (Unheld (BetweenRight job)) sh log bag
  accounted : Accounted sh bag j
  finished : ∀ x ∈ j.finished, (∀ e, x.exceptionPtr = some e → Raised x.log e) ∧
    (x.exceptionPtr = none → ∀ e, ¬Raised x.log e)

theorem reportingRule (job : Job L D E) : StreamRule job (Reporting job) where
  start := ⟨(tellsRule job).initial [],by
    simp [Accounted,Journal.empty,inProgress,fresh,underway],by simp [Journal.empty]⟩
  react := by
    intro sh log bag rest j g seed r reporting split quiet reacted
    have member : g ∈ bag := by simp [split]
    have after := reporting.phase.react (tellsRule job) split quiet reacted
    refine ⟨after,reporting.accounted.react reporting.phase split reacted after.single,fun x listed => ?_⟩
    rcases finished_react listed with old | ⟨e,rfl,rfl⟩
    · exact reporting.finished x old
    · obtain ⟨frames,_,tells,present⟩ := reporting.phase.event member (by simp)
      exact tells.callback present
  fatal := by
    intro _ _ _ _ sh log bag j _ _ reporting
    exact ⟨reporting.phase.fatal (tellsRule job),reporting.accounted,reporting.finished⟩
end ToyMtFramework.Schedule.Loop
