import ToyMtFramework.ScheduleRound

/-! The exceptions of a round reach its callback. As soon as a body has thrown, some
frame or some held task carries an exception, and when nothing is left to carry one
it is the callback that has it. -/
namespace ToyMtFramework.Schedule
open Activities Transition

variable {L D E : Type} [DecidableEq L] [DecidableEq D]

def Thrown (sh : Shared L D E) (e : E) : Prop :=
  ∃ run ∈ sh.ran, run.thrown = some e

def Frame.exception : Frame L D E → Option E
  | .doneWaitingTask _ e | .queued _ e | .runModule _ e | .doneWaiting _ e | .filterFinished _ _ e
  | .callback e => e
  | _ => none

structure Honest (sh : Shared L D E) (bag : Multiset (Frame L D E)) : Prop where
  frames : ∀ f ∈ bag, ∀ e, f.exception = some e → Thrown sh e
  tasks : ∀ t e, sh.exceptionPtr t = some e → Thrown sh e
  lists : ∀ l e, (sh.list l).exceptionPtr = some e → Thrown sh e
  released : ∀ e, some e ∈ sh.released → Thrown sh e

def Carries (sh : Shared L D E) : Frame L D E → Prop
  | .doneWaitingTask _ e | .queued _ e | .runModule _ e | .doneWaiting _ e | .filterFinished _ _ e
  | .callback e => e ≠ none
  | .node l _ => (sh.list l).waiting = false ∧ (sh.list l).exceptionPtr ≠ none
  | .execute t => sh.exceptionPtr t ≠ none
  | _ => False

def Carried (sh : Shared L D E) (bag : Multiset (Frame L D E)) : Prop :=
  (∃ f ∈ bag, Carries sh f) ∨ (∃ t, sh.exceptionPtr t ≠ none ∧ 0 < sh.refCount t) ∨
    ∃ e, some e ∈ sh.released

section Steps
variable {job : Job L D E} {sh : Shared L D E} {f : Frame L D E}
  {r : Reaction (Shared L D E) (Frame L D E)} {rest : Multiset (Frame L D E)} {p : Nat}

theorem ran_react (reacts : Reacts job sh f r) : ∃ runs, r.shared.ran = sh.ran ++ runs := by
  cases reacts with
  | body w values seed outcome performed => exact ⟨_,rfl⟩
  | _ => exact ⟨[],(List.append_nil _).symm⟩

theorem Thrown.react {e : E} (thrown : Thrown sh e) (reacts : Reacts job sh f r) :
    Thrown r.shared e := by
  obtain ⟨run,member,equal⟩ := thrown
  obtain ⟨runs,ran⟩ := ran_react reacts
  exact ⟨run,by rw [ran]; exact List.mem_append_left runs member,equal⟩

theorem Honest.react (honest : Honest sh (f ::ₘ rest)) (reacts : Reacts job sh f r) :
    Honest r.shared (r.frames + rest) := by
  have later {e : E} (thrown : Thrown sh e) : Thrown r.shared e := thrown.react reacts
  have acting (e : E) (passed : f.exception = some e) : Thrown r.shared e :=
    later (honest.frames f (Multiset.mem_cons_self f rest) e passed)
  have task (t : TaskId L D) (e : E) (given : sh.exceptionPtr t = some e) : Thrown r.shared e :=
    later (honest.tasks t e given)
  have list (l : ListId L D) (e : E) (given : (sh.list l).exceptionPtr = some e) :
      Thrown r.shared e := later (honest.lists l e given)
  have old (e : E) (given : some e ∈ sh.released) : Thrown r.shared e :=
    later (honest.released e given)
  constructor
  · intro g member e passed
    rcases Multiset.mem_add.mp member with new | before
    · cases reacts with
      | body w values seed outcome performed =>
        obtain rfl : g = .doneWaiting (.waitingTasks w) outcome.thrown := by simpa using new
        exact ⟨⟨w,sh.resets w,outcome.thrown⟩,by simp [Shared.finish],passed⟩
      | _ => simp at new <;> grind [Frame.exception]
    · exact later (honest.frames g (Multiset.mem_cons_of_mem before) e passed)
  · intro t e given
    cases reacts with
    | doneWaitingTask u x =>
      by_cases same : t = u
      · subst u
        have first : sh.exceptionPtr t = some e ∨ x = some e := by
          have combined : (sh.exceptionPtr t).or x = some e := by
            simpa [Shared.dependentTaskFailed] using given
          cases kept : sh.exceptionPtr t with
          | none => simpa [kept] using combined
          | some y => exact Or.inl (by simpa [kept] using combined)
        exact first.elim (task t e) (acting e)
      · exact task t e (by simpa [Shared.dependentTaskFailed,same] using given)
    | _ => exact task t e given
  · intro l e given
    cases reacts with
    | runEmpty p | runAsync p | doneWaiting m x =>
      simp only [Shared.setList,Function.update_apply] at given
      split at given
      · exact acting e given
      · exact list l e given
    | _ => exact list l e given
  · intro e given
    cases reacts with
    | callback x =>
      rcases List.mem_append.mp given with before | new
      · exact old e before
      · exact acting e (List.mem_singleton.mp new).symm
    | _ => exact old e given

theorem setList_carries {g : Frame L D E} (carries : Carries sh g) {l : ListId L D}
    (other : ∀ t, g = .node l t → (sh.list l).waiting = true) (value : WaitingList E) :
    Carries (sh.setList l value) g := by
  cases g with
  | node m t =>
    have distinct : m ≠ l := by
      rintro rfl
      simp [carries.1] at other
    simpa [Carries,Shared.setList,distinct] using carries
  | _ => exact carries

/-- Nobody waits for a path whose callback is about to be reset. -/
theorem Counts.unawaited (counts : Counts job sh (.runAsync p ::ₘ rest)) (t : TaskId L D) :
    .node (.callback p) t ∉ rest := by
  intro member
  have unopened := counts.unopened p (weigh_pos (Multiset.mem_cons_self _ _) (by simp [pending]))
  have awaited : 0 < weigh (waits (.callback p)) (.runAsync p ::ₘ rest) :=
    weigh_pos (Multiset.mem_cons_of_mem member) (by simp [waits])
  omega

/-- What another frame carries is not touched: no list is opened or closed twice. -/
theorem Carries.react {g : Frame L D E} (member : g ∈ rest) (carries : Carries sh g)
    (counts : Counts job sh (f ::ₘ rest)) (reacts : Reacts job sh f r) : Carries r.shared g := by
  cases reacts with
  | doneWaitingTask t e =>
    cases g with
    | execute u =>
      by_cases same : u = t
      · subst u
        simp only [Carries,Shared.dependentTaskFailed,Function.update_self] at carries ⊢
        intro cleared
        exact carries (Option.or_eq_none_iff.mp cleared).1
      · simpa [Carries,Shared.dependentTaskFailed,same] using carries
    | _ => exact carries
  | runEmpty p | runAsync p =>
    exact setList_carries carries (fun t same => absurd (same ▸ member) (counts.unawaited t)) _
  | doneWaiting l e =>
    exact setList_carries carries (fun _ _ => counts.closing_waiting (Multiset.mem_cons_self _ _)) _
  | _ => exact carries

theorem exceptionPtr_react {t : TaskId L D} (given : sh.exceptionPtr t ≠ none)
    (reacts : Reacts job sh f r) : r.shared.exceptionPtr t ≠ none := by
  cases reacts with
  | doneWaitingTask u e =>
    by_cases same : t = u
    · subst u
      simp only [Shared.dependentTaskFailed,Function.update_self]
      intro cleared
      exact given (Option.or_eq_none_iff.mp cleared).1
    · simpa [Shared.dependentTaskFailed,same] using given
  | _ => exact given

/-- A task keeps its holders until it is spawned. -/
theorem task_carried (counts : Counts job sh (f ::ₘ rest)) (reacts : Reacts job sh f r)
    {t : TaskId L D} (given : sh.exceptionPtr t ≠ none) (held : 0 < sh.refCount t) :
    Carried r.shared (r.frames + rest) := by
  have kept := exceptionPtr_react given reacts
  by_cases spawned : f = .decrement t ∧ sh.refCount t = 1
  · obtain ⟨rfl,last⟩ := spawned
    cases reacts with
    | decrement u more => exact absurd last more
    | decrementLast u last => exact Or.inl ⟨.execute t,by simp,kept⟩
  · refine Or.inr (Or.inl ⟨t,kept,?_⟩)
    cases reacts <;>
      simp [Shared.hold,Shared.drop,Shared.setList,Shared.setIndex,Shared.request,Shared.start,
        Shared.dependentTaskFailed,Shared.fail,Shared.finish] at spawned ⊢ <;> grind

/-- What a frame carries it hands on: to the frame it calls, or to a task or a list
that somebody waits for. -/
theorem frame_carried (round : Round job sh (f ::ₘ rest)) (reacts : Reacts job sh f r)
    (carries : Carries sh f) : Carried r.shared (r.frames + rest) := by
  have counts := round.counts
  cases reacts with
  | doneWaitingTask t e =>
    have held : 0 < sh.refCount t := counts.owned (Multiset.mem_cons_self _ _) (by simp [owns])
    refine Or.inr (Or.inl ⟨t,?_,held⟩)
    simp only [Shared.dependentTaskFailed,Function.update_self]
    intro cleared
    exact carries (Option.or_eq_none_iff.mp cleared).2
  | node l t waiting => exact Or.inl ⟨.doneWaitingTask t (sh.list l).exceptionPtr,by simp,carries.2⟩
  | executeQueued w queue => exact Or.inl ⟨.queued w _,by simp,carries⟩
  | executeModule w queue => exact Or.inl ⟨.runModule w _,by simp,carries⟩
  | executeFilter p => exact Or.inl ⟨.filterFinished p (sh.index p) _,by simp,carries⟩
  | executeFailed e failed => exact Or.inl ⟨.callback (some e),by simp,by simp [Carries]⟩
  | executeDone succeeded => exact absurd succeeded carries
  | queued w e => exact Or.inl ⟨.runModule w e,by simp,carries⟩
  | moduleFailed w e => exact Or.inl ⟨.doneWaiting (.waitingTasks w) (some e),by simp,carries⟩
  | filterStopped p i e label at_i stopped => exact Or.inl ⟨.doneWaiting (.callback p) e,by simp,carries⟩
  | doneWaiting l e =>
    obtain ⟨t,member⟩ := counts.closing_awaited (Multiset.mem_cons_self _ _)
    refine Or.inl ⟨.node l t,by simpa using member,?_⟩
    simpa [Carries,Shared.setList] using carries
  | callback e =>
    cases e with
    | none => exact absurd rfl carries
    | some x => exact Or.inr (Or.inr ⟨x,by simp⟩)
  | _ => simp [Carries] at carries

theorem Carried.react (carried : Carried sh (f ::ₘ rest)) (round : Round job sh (f ::ₘ rest))
    (reacts : Reacts job sh f r) : Carried r.shared (r.frames + rest) := by
  rcases carried with ⟨g,member,carries⟩ | ⟨t,given,held⟩ | ⟨e,released⟩
  · rcases Multiset.mem_cons.mp member with rfl | other
    · exact frame_carried round reacts carries
    · exact Or.inl ⟨g,Multiset.mem_add.mpr (Or.inr other),carries.react other round.counts reacts⟩
  · exact task_carried round.counts reacts given held
  · refine Or.inr (Or.inr ⟨e,?_⟩)
    cases reacts with
    | callback x => exact List.mem_append_left _ released
    | _ => exact released

/-- From the moment a body throws an exception is carried. -/
theorem thrown_carried (carried : (∃ e, Thrown sh e) → Carried sh (f ::ₘ rest))
    (round : Round job sh (f ::ₘ rest)) (reacts : Reacts job sh f r)
    (thrown : ∃ e, Thrown r.shared e) : Carried r.shared (r.frames + rest) := by
  by_cases before : ∃ e, Thrown sh e
  · exact (carried before).react round reacts
  · cases reacts with
    | body w values seed outcome performed =>
      obtain ⟨e,run,member,failed⟩ := thrown
      rcases List.mem_append.mp member with old | new
      · exact absurd ⟨e,run,old,failed⟩ before
      · obtain rfl := List.mem_singleton.mp new
        have raised : outcome.thrown = some e := failed
        exact Or.inl ⟨.doneWaiting (.waitingTasks w) outcome.thrown,by simp,by simp [Carries,raised]⟩
    | _ => exact absurd thrown before

/-- The flag is set when the callback is about to be, or has been, given an exception. -/
structure Flagged (sh : Shared L D E) (bag : Multiset (Frame L D E)) : Prop where
  fatal : sh.setFatal = true → sh.fatal = true
  callback : ∀ e, .callback e ∈ bag → (sh.setFatal = true ↔ e ≠ none)
  released : ∀ e ∈ sh.released, (sh.setFatal = true ↔ e ≠ none)
  early : (∀ e, .callback e ∉ bag) → sh.released = [] → sh.setFatal = false

theorem Counts.sole_ending (counts : Counts job sh (f ::ₘ rest)) (last : ending f = 1) :
    sh.released = [] ∧ ∀ e, .callback e ∉ rest := by
  have schedule := counts.schedule
  rw [weigh_cons,last] at schedule
  refine ⟨List.length_eq_zero_iff.mp (by omega),fun e member => ?_⟩
  have positive : 0 < weigh ending rest := weigh_pos member (by simp [ending])
  omega

theorem Flagged.react (flagged : Flagged sh (f ::ₘ rest)) (counts : Counts job sh (f ::ₘ rest))
    (reacts : Reacts job sh f r) : Flagged r.shared (r.frames + rest) := by
  obtain ⟨fatal,callback,released,early⟩ := flagged
  have sole (last : ending f = 1) := counts.sole_ending last
  cases reacts with
  | runNoPaths empty =>
    obtain ⟨unreleased,none_left⟩ := sole rfl
    have unset := early (by simpa using none_left) unreleased
    refine ⟨fatal,?_,released,fun absent => absurd (by simp) (absent none)⟩
    intro e member
    have same : e = none := by simpa [none_left] using member
    simp [same,unset]
  | executeFailed x failed =>
    obtain ⟨unreleased,none_left⟩ := sole (by simp [ending])
    refine ⟨fun _ => rfl,?_,?_,fun absent => absurd (by simp) (absent (some x))⟩
    · intro e member
      have same : e = some x := by simpa [none_left] using member
      simp [same,Shared.fail]
    · simp [Shared.fail,unreleased]
  | executeDone succeeded =>
    obtain ⟨unreleased,none_left⟩ := sole (by simp [ending])
    have unset := early (by simpa using none_left) unreleased
    refine ⟨fatal,?_,released,fun absent => absurd (by simp) (absent none)⟩
    intro e member
    have same : e = none := by simpa [none_left] using member
    simp [same,unset]
  | callback x =>
    obtain ⟨unreleased,none_left⟩ := sole rfl
    refine ⟨fatal,by simp [none_left],?_,by simp⟩
    intro e member
    have same : e = x := by simpa [unreleased] using member
    rw [same]
    exact callback x (by simp)
  | _ =>
    refine ⟨fatal,?_,released,?_⟩
    · exact fun e member => callback e (by simpa using member)
    · exact fun absent => early (by simpa using absent)

end Steps

structure RoundState (job : Job L D E) (sh : Shared L D E) (bag : Multiset (Frame L D E)) : Prop where
  round : Round job sh bag
  honest : Honest sh bag
  carried : (∃ e, Thrown sh e) → Carried sh bag
  flagged : Flagged sh bag

theorem RoundState.react {job : Job L D E} {sh : Shared L D E} {f : Frame L D E}
    {r : Reaction (Shared L D E) (Frame L D E)} {rest : Multiset (Frame L D E)}
    (state : RoundState job sh (f ::ₘ rest)) (reacts : Reacts job sh f r) :
    RoundState job r.shared (r.frames + rest) :=
  ⟨state.round.react reacts,state.honest.react reacts,thrown_carried state.carried state.round reacts,
    state.flagged.react state.round.counts reacts⟩

theorem Ready.state (job : Job L D E) {sh : Shared L D E} {eventIndex : Nat}
    (ready : Ready sh eventIndex) : RoundState job (processing sh).shared (processing sh).bag := by
  have bag : (processing sh).bag = {.runPaths} := rfl
  rw [bag]
  refine ⟨⟨?_,?_,?_⟩,?_,?_,?_⟩
  · constructor <;>
      simp [processing,ready.refCount,ready.waitingTasks,ready.workStarted,ready.released,owns,working,
        starting,waits,pending,acting,ending,Shared.settled,weigh]
  · simp [Sourced]
  · simp [Ranked,processing,ready.workStarted]
  · constructor
    · simp [Frame.exception]
    · simp [processing,ready.exceptionPtr]
    · intro l e given
      cases l with
      | waitingTasks w => simp [processing,ready.waitingTasks] at given
      | callback p => simp [processing,ready.callback] at given
    · simp [processing,ready.released]
  · simp [Thrown,processing,ready.ran]
  · constructor <;> simp [processing,ready.setFatal,ready.released]

theorem next_state {job : Job L D E} {s t : State L D E} {a : Action}
    (state : RoundState job s.shared s.bag) (taken : next job s a = some t) :
    RoundState job t.shared t.bag := by
  cases a with
  | act thread seed =>
    exact Pool.step_invariant (fun _ _ _ _ _ state reacted => state.react (react_reacts reacted))
      state taken
  | otherStreamFails =>
    obtain rfl := Option.some.inj taken
    obtain ⟨round,⟨frames,tasks,lists,released⟩,carried,⟨_,callback,given,early⟩⟩ := state
    exact ⟨round.otherStreamFails,⟨frames,tasks,lists,released⟩,carried,
      ⟨fun _ => rfl,callback,given,early⟩⟩

theorem reachable_state {job : Job L D E} {sh : Shared L D E} {eventIndex : Nat}
    (ready : Ready sh eventIndex) {guard : State L D E → Action → Prop} {s : State L D E}
    (run : Reaches (next job) guard (processing sh) s) : RoundState job s.shared s.bag :=
  run.invariant (fun _ _ _ state _ taken => next_state state taken) (ready.state job)

theorem RoundState.callback_thrown {job : Job L D E} {sh : Shared L D E}
    {bag : Multiset (Frame L D E)} (state : RoundState job sh bag) {e : Option E} (released : e ∈ sh.released) (thrown : ∃ x, Thrown sh x) : e ≠ none := by
  have schedule := state.round.counts.schedule
  have positive : 0 < sh.released.length := List.length_pos_of_mem released
  have resting : weigh ending bag = 0 := by omega
  have ended (f : Frame L D E) (member : f ∈ bag) : ending f = 0 := weigh_eq_zero resting member
  have quiet : Over sh bag := by
    refine ⟨fun member => ?_,by omega⟩
    simpa [ending] using ended _ member
  rcases state.carried thrown with ⟨f,member,carries⟩ | ⟨t,_,held⟩ | ⟨x,arrived⟩
  · have last := ended f member
    rcases state.round.frames_over quiet member with ⟨w,added,rfl⟩ | rfl | ⟨x,rfl⟩
    · exact absurd carries id
    · simp [ending] at last
    · simp [ending] at last
  · have unheld := state.round.task_over quiet t
    omega
  · have single : sh.released.length = 1 := by omega
    obtain ⟨only,equal⟩ := List.length_eq_one_iff.mp single
    rw [equal,List.mem_singleton] at released arrived
    rw [released,← arrived]
    simp

/-- The callback of a round is released once, with an exception if and only if some
body threw, and the fatal flag is set first exactly then. -/
theorem callback_reports (job : Job L D E) (acyclic : job.Acyclic) (sh : Shared L D E)
    (eventIndex : Nat) (ready : Ready sh eventIndex) (s : State L D E)
    (run : Reachable (next job) (processing sh) s) :
    s.shared.released.length ≤ 1 ∧
    (Quiescent s.shared s.bag → s.shared.released.length = 1) ∧
    (∀ e ∈ s.shared.released, (e ≠ none ↔ ∃ x, Thrown s.shared x) ∧
      (∀ x, e = some x → Thrown s.shared x) ∧ (s.shared.setFatal = true ↔ e ≠ none)) ∧
    (∀ e, .callback e ∈ s.bag → (s.shared.setFatal = true ↔ e ≠ none)) ∧
    (s.shared.setFatal = true → s.shared.fatal = true) := by
  have state := reachable_state ready run
  have schedule := state.round.counts.schedule
  refine ⟨by omega,state.round.quiescent_released acyclic,?_,state.flagged.callback,
    state.flagged.fatal⟩
  intro e member
  have honest (x : E) (given : e = some x) : Thrown s.shared x :=
    state.honest.released x (given ▸ member)
  refine ⟨⟨?_,state.callback_thrown member⟩,honest,state.flagged.released e member⟩
  intro given
  obtain ⟨x,equal⟩ := Option.ne_none_iff_exists'.mp given
  exact ⟨x,honest x equal⟩

/-- One path with filter 0, which gets the product of producer 1; producer 1 throws. -/
def throwingProducer : Job Nat Unit Unit where
  filters := [⟨0,.threadUnsafe,[(1,())],[],fun _ _ _ => ⟨[],true,none⟩⟩]
  producers := [⟨1,.threadSafeBetweenInstances,[],[()],fun _ _ _ => ⟨[],false,some ()⟩⟩]
  paths := [[0]]

theorem throwingProducer_acyclic : throwingProducer.Acyclic :=
  acyclic_of_sources (by simp [throwingProducer])

def throwingRun : List Action :=
  turns [(15,0),(4,4),(3,3),(1,5),(3,6),(3,2),(3,7),(3,1),(2,8)]

theorem callback_reports_throwingProducer :
    ∃ s, execute (next throwingProducer) (processing (fresh Unit Nat Unit 0)) throwingRun = some s ∧
      s.shared.released = [some ()] ∧ (∃ x, Thrown s.shared x) ∧ s.shared.setFatal = true := by
  have ran : (execute (next throwingProducer) (processing (fresh Unit Nat Unit 0)) throwingRun).map
      (fun s => s.shared.released) = some [some ()] := by decide
  obtain ⟨s,ran,released⟩ := Option.map_eq_some_iff.mp ran
  have reports := (callback_reports throwingProducer throwingProducer_acyclic _ 0 (fresh_ready 0) s
    (execute_reachable _ ran)).2.2.1 (some ()) (by simp [released])
  exact ⟨s,ran,released,reports.1.mp (by simp),reports.2.2.mpr (by simp)⟩

end ToyMtFramework.Schedule
