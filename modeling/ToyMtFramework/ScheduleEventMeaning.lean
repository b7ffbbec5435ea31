import ToyMtFramework.ScheduleEvents
import ToyMtFramework.ScheduleAgreement

/-! Every event of a stream has the outcome that it means, for a job whose modules depend on nothing
but the event and what they get. What is left over from the events before makes no difference: in
both frameworks the log of an event has the executions of the modules that the event needs, each once,
with what the single-threaded framework gives them. -/
namespace ToyMtFramework.Schedule
open Activities Transition
open Loop

variable {L D E : Type}

def Entry.performer : Entry L D E → Option (Wrapper L D)
  | .performed w _ => some w
  | _ => none

def performers (log : List (Entry L D E)) : List (Wrapper L D) :=
  log.filterMap Entry.performer

theorem mem_performers {w : Wrapper L D} {log : List (Entry L D E)} :
    w ∈ performers log ↔ ∃ outcome, .performed w outcome ∈ log := by
  unfold performers
  rw [List.mem_filterMap]
  constructor
  · rintro ⟨entry,member,equal⟩
    cases entry with
    | performed v outcome =>
      obtain rfl := Option.some.inj equal
      exact ⟨outcome,member⟩
    | _ => cases equal
  · rintro ⟨outcome,member⟩
    exact ⟨_,member,rfl⟩

def Entry.run (resets : Wrapper L D → Nat) : Entry L D E → Option (Run L D E)
  | .performed w outcome => some ⟨w,resets w,outcome.thrown⟩
  | _ => none

def executions (resets : Wrapper L D → Nat) (log : List (Entry L D E)) : List (Run L D E) :=
  log.filterMap (Entry.run resets)

theorem executions_wrapper (resets : Wrapper L D → Nat) (log : List (Entry L D E)) :
    (executions resets log).map Run.wrapper = performers log := by
  unfold executions performers
  rw [List.map_filterMap]
  refine List.filterMap_congr fun entry _ => ?_
  cases entry <;> rfl

/-- The state as if the event in progress were the first. -/
def Shared.thisEvent (sh : Shared L D E) (log : List (Entry L D E)) : Shared L D E :=
  {sh with ran := executions sh.resets log}

variable [DecidableEq L] [DecidableEq D] {job : Job L D E}

section Steps
variable {sh : Shared L D E} {f : Frame L D E} {r : Reaction (Shared L D E) (Frame L D E)}
  {bag rest : Multiset (Frame L D E)} {log es : List (Entry L D E)}

/-- What has been executed before makes no difference to what a frame does. -/
theorem Reacts.rebase (reacts : Reacts job sh f r) {runs : List (Run L D E)}
    (new : r.shared.ran = sh.ran ++ runs) (ran : List (Run L D E)) :
    Reacts job {sh with ran} f ⟨{r.shared with ran := ran ++ runs},r.calls,r.spawned⟩ := by
  cases reacts with
  | body w values seed outcome performed =>
    obtain rfl : [⟨w,sh.resets w,outcome.thrown⟩] = runs := List.append_cancel_left new
    exact .body w values seed outcome performed
  | _ =>
    obtain rfl : runs = [] := by
      simpa [Shared.hold,Shared.drop,Shared.setList,Shared.setIndex,Shared.request,Shared.start,
        Shared.dependentTaskFailed,Shared.fail] using new
    rw [List.append_nil]
    constructor <;> assumption

theorem resets_react (reacts : Reacts job sh f r) : r.shared.resets = sh.resets := by
  cases reacts <;> rfl

theorem eventIndex_react (reacts : Reacts job sh f r) : r.shared.eventIndex = sh.eventIndex := by
  cases reacts <;> rfl

/-- What is executed is logged. -/
theorem Logs.ran (logs : Logs job sh f r es) : r.shared.ran = sh.ran ++ executions sh.resets es := by
  cases logs with
  | silent _ _ reacts silent _ =>
    cases reacts with
    | body _ _ _ _ _ => cases silent
    | _ => exact (List.append_nil _).symm
  | runAsync p _ reacts => cases reacts <;> exact (List.append_nil _).symm
  | performed w values seed outcome performed => rfl
  | _ => exact (List.append_nil _).symm

theorem Logs.thisEvent (log : List (Entry L D E)) (logs : Logs job sh f r es) : Reacts job (sh.thisEvent log) f
    ⟨r.shared.thisEvent (log ++ es),r.calls,r.spawned⟩ := by
  have based := logs.reacts.rebase logs.ran (executions sh.resets log)
  have together : executions r.shared.resets (log ++ es) =
      executions sh.resets log ++ executions sh.resets es := by
    rw [resets_react logs.reacts,executions,List.filterMap_append]
    rfl
  rw [Shared.thisEvent,Shared.thisEvent,together]
  exact based

end Steps

structure LogMeans (plain : job.Plain) (index : Nat) (log : List (Entry L D E)) : Prop where
  once : (performers log).Nodup
  needed : ∀ w, w ∈ performers log ↔ job.Needed plain.acyclic index w
  outcome : ∀ w outcome, .performed w outcome ∈ log → outcome = job.outcome plain.acyclic index w

structure EventMeans (plain : job.Plain) (sh : Shared L D E) (bag : Multiset (Frame L D E))
    (log : List (Entry L D E)) : Prop where
  right : EventRight job sh bag log
  quiet : ∀ e, ¬Thrown sh e
  honest : sh.fatal = false → Honest (sh.thisEvent log) bag
  meets : sh.fatal = false → Meets plain sh.eventIndex (sh.thisEvent log) bag
  outcome : sh.fatal = false → ∀ w outcome, .performed w outcome ∈ log →
    outcome = job.outcome plain.acyclic sh.eventIndex w

/-- What holds between two events, in front of `c`, and when there are no more events. -/
structure BetweenMeans (job : Job L D E) (c : Option (LoopFrame L D E)) (sh : Shared L D E)
    (log : List (Entry L D E)) : Prop where
  right : BetweenRight job c sh log
  clean : Clean sh
  normal : ∀ e, c ≠ some (.handleNextEventAsync (some e))

/-- What the single-threaded framework has done in the event is what the log has. -/
structure AsSingleThreaded (job : Job L D E) (log : List (Entry L D E)) (t : SingleThreaded.State L D) : Prop where
  modules : ∀ w, (job.module w).isSome = true → (w ∈ performers log ↔ SingleThreaded.Ran t w)
  known : ∀ w ∈ performers log, (job.module w).isSome = true
  filters : ∀ label, t.filtersRun.count label = (performers log).count (.filter label)
  keep : ∀ label outcome, .performed (.filter label) outcome ∈ log → t.keep label = outcome.keep
  value : ∀ label product outcome, .performed (.producer label product) outcome ∈ log →
    t.value label product = produced (.producer label product) outcome

theorem LogMeans.agrees {plain : job.Plain} {index : Nat} {log : List (Entry L D E)}
    (means : LogMeans plain index log) (seed : Nat) {unrun : SingleThreaded.State L D}
    (flags : SingleThreaded.Unrun unrun) : ∀ᶠ depth in Filter.atTop, ∃ t,
      SingleThreaded.process job seed index depth unrun = .ok t ∧ AsSingleThreaded job log t := by
  filter_upwards [SingleThreaded.process_runs plain index seed flags]
  rintro depth ⟨t,returned,sound,ran⟩
  have known (w : Wrapper L D) (member : w ∈ performers log) : (job.module w).isSome = true :=
    plain.needed_known ((means.needed w).mp member)
  have modules (w : Wrapper L D) (registered : (job.module w).isSome = true) :
      w ∈ performers log ↔ SingleThreaded.Ran t w := (means.needed w).trans (ran w registered).symm
  refine ⟨t,returned,modules,known,?_,?_,?_⟩
  · intro label
    rw [sound.filtersRun,means.once.count]
    by_cases done : t.filterWasRun label = true
    · rw [if_pos done,if_pos ((modules (.filter label) (sound.registered label done)).mpr done)]
    · rw [if_neg done,if_neg]
      intro member
      exact done ((modules _ (known _ member)).mp member)
  · intro label outcome member
    have listed : .filter label ∈ performers log := mem_performers.mpr ⟨outcome,member⟩
    rw [sound.keep label ((modules _ (known _ listed)).mp listed),means.outcome _ _ member]
  · intro label product outcome member
    have listed : .producer label product ∈ performers log := mem_performers.mpr ⟨outcome,member⟩
    rw [sound.value label product (known _ listed) ((modules _ (known _ listed)).mp listed),value_eq,
      means.outcome _ _ member]

section Inside
variable {plain : job.Plain} {sh : Shared L D E} {f : Frame L D E} {r : Reaction (Shared L D E) (Frame L D E)}
  {bag rest : Multiset (Frame L D E)} {log es : List (Entry L D E)}

theorem Round.thisEvent (round : Round job sh bag) (log : List (Entry L D E)) :
    Round job (sh.thisEvent log) bag := by
  obtain ⟨⟨owners,modules,paths,schedule,waiters,requested,callbacks,unopened⟩,sourced,ranked⟩ := round
  exact ⟨⟨owners,modules,paths,schedule,waiters,requested,callbacks,unopened⟩,sourced,ranked⟩

/-- The flag is never taken back within an event. -/
theorem fatal_react (reacts : Reacts job sh f r) (unset : r.shared.fatal = false) : sh.fatal = false := by
  cases reacts with
  | executeFailed e failed => cases unset
  | _ => exact unset

/-- Nothing is thrown by the modules of a plain job. -/
theorem quiet_react (plain : job.Plain) (quiet : ∀ e, ¬Thrown sh e) (reacts : Reacts job sh f r) (e : E) :
    ¬Thrown r.shared e := by
  intro thrown
  cases reacts with
  | body w values seed outcome performed =>
    obtain ⟨run,member,failed⟩ := thrown
    rcases List.mem_append.mp member with old | new
    · exact quiet e ⟨run,old,failed⟩
    · rw [List.mem_singleton.mp new,performed,plain.thrown] at failed
      cases failed
  | _ => exact quiet e thrown

/-- A body gives what its module means in this event. -/
theorem performed_means (meets : Meets plain sh.eventIndex (sh.thisEvent log) (f ::ₘ rest))
    (logs : Logs job sh f r es) (w : Wrapper L D) (outcome : Outcome D E) (member : .performed w outcome ∈ es) :
    outcome = job.outcome plain.acyclic sh.eventIndex w := by
  cases logs with
  | performed v values seed other performed =>
    cases List.mem_singleton.mp member
    obtain ⟨before,getters,read⟩ := meets.frames _ (Multiset.mem_cons_self _ _)
    rw [List.append_nil] at getters
    rw [performed,plain.perform_eq,read,← getters]
    rfl
  | silent _ _ _ _ _ => cases member
  | _ => cases List.mem_singleton.mp member

theorem EventMeans.react (means : EventMeans plain sh (f ::ₘ rest) log) (history : History job sh (f ::ₘ rest))
    (going : ∀ e, f ≠ .callback e) (logs : Logs job sh f r es) :
    EventMeans plain r.shared (r.frames + rest) (log ++ es) := by
  have reacts := logs.thisEvent log
  have before := fatal_react logs.reacts
  have round := means.right.state.round.thisEvent log
  refine ⟨means.right.react history going logs,quiet_react plain means.quiet logs.reacts,?_,?_,?_⟩
  · intro unset
    exact (means.honest (before unset)).react reacts
  · intro unset
    rw [eventIndex_react logs.reacts]
    exact (means.meets (before unset)).react round (means.honest (before unset)) reacts
  · intro unset w outcome member
    rw [eventIndex_react logs.reacts]
    rcases List.mem_append.mp member with old | new
    · exact means.outcome (before unset) w outcome old
    · exact performed_means (means.meets (before unset)) logs w outcome new

/-- When the callback is about to be released the log has what the event means. -/
theorem EventMeans.means (means : EventMeans plain sh bag log) (unset : sh.fatal = false) {e : Option E}
    (member : .callback e ∈ bag) : LogMeans plain sh.eventIndex log := by
  have round := means.right.state.round
  have outcome := (means.meets unset).outcome_over (round.thisEvent log)
    ((round.thisEvent log).over_ending member rfl (by simp))
  rw [show (sh.thisEvent log).ran.map Run.wrapper = performers log from executions_wrapper _ log] at outcome
  exact ⟨outcome.1,fun w => (outcome.2 w).1,means.outcome unset⟩

/-- The callback of an event has no exception. -/
theorem EventMeans.normal (means : EventMeans plain sh bag log) {e : Option E} (member : .callback e ∈ bag) :
    e = none := by
  cases e with
  | none => rfl
  | some x => exact absurd (means.right.state.honest.frames _ member x rfl) (means.quiet x)

theorem EventMeans.release {e : Option E} (means : EventMeans plain sh (.callback e ::ₘ rest) log) :
    BetweenMeans job (some (.handleNextEventAsync e)) {sh with released := sh.released ++ [e]} log := by
  obtain rfl := means.normal (Multiset.mem_cons_self _ _)
  have right := means.right.release
  exact ⟨right,right.clean _ rfl (by simp),by simp⟩

theorem EventMeans.fatal (means : EventMeans plain sh bag log) :
    EventMeans plain {sh with fatal := true} bag log :=
  ⟨means.right.fatal,means.quiet,by simp,by simp,by simp⟩

end Inside

section Outside
variable {sh : Shared L D E} {log : List (Entry L D E)}

theorem BetweenMeans.start (job : Job L D E) :
    BetweenMeans job (some (.handleNextEventAsync none)) (fresh E L D 0) [] := by
  refine ⟨BetweenRight.start job,?_,by simp⟩
  constructor <;> simp [fresh,Thrown]

theorem BetweenMeans.controls {sh after : LoopShared L D E} {c : LoopFrame L D E}
    {d : Option (LoopFrame L D E)} (means : BetweenMeans job (some c) sh.schedule log)
    (acts : Controls job sh c after d) : BetweenMeans job d after.schedule log := by
  refine ⟨means.right.controls acts,means.clean.controls acts,?_⟩
  rintro e rfl
  cases acts

/-- When all is reset, the state is that of a first event. -/
theorem BetweenMeans.begin (plain : job.Plain) {step : ResetStep}
    (means : BetweenMeans job (some (.scheduleReset [] step)) sh log)
    (between : Between job sh (.scheduleReset [] step) 0) (round : Round job sh {.runPaths}) :
    EventMeans plain sh {.runPaths} [] := by
  obtain ⟨quiet,tasks,lists,_⟩ := means.clean
  have unstarted (w : Wrapper L D) : sh.workStarted w = false := by
    by_contra was
    have left := between.started w (by simpa using was)
    simp [unflagged] at left
  have waiting (w : Wrapper L D) : (sh.list (.waitingTasks w)).waiting = true := by
    by_contra closed
    have left := between.closed w (by simpa using closed)
    simp [unlisted] at left
  have right := means.right.begin between round
  refine ⟨right,quiet,fun _ => ?_,fun unset => ?_,by simp⟩
  · constructor <;> simp [Shared.thisEvent,Frame.exception,tasks,lists,right.unreleased]
  · refine ⟨rfl,unset,?_,?_,?_,?_,?_,?_,?_⟩
    · simp [Thrown,Shared.thisEvent,executions]
    · simp [Lawful]
    · intro w done
      simp [Done,Shared.thisEvent,waiting] at done
    · intro p inside opened
      simp [pending,inside] at opened
    · simp [Shared.thisEvent,unstarted]
    · simp [Shared.thisEvent,unstarted]
    · simp [Shared.thisEvent,executions,Shared.settled,waiting,closing]

end Outside

/-- The rule holds of what an event means. -/
theorem meaningRule (plain : job.Plain) : Rule job (EventMeans plain) (BetweenMeans job) where
  start := BetweenMeans.start job
  blank := fun _ means _ member => means.right.blanks member
  react := fun _ history means going logs => means.react history going logs
  release := fun _ means => means.release
  control := fun acts means => means.controls acts
  begin := fun between round means => means.begin plain between round
  fatalInside := fun means => means.fatal
  fatalOutside := fun means =>
    ⟨means.right.fatal,⟨means.clean.quiet,means.clean.tasks,means.clean.lists,means.clean.setFatal⟩,
      means.normal⟩
end ToyMtFramework.Schedule
