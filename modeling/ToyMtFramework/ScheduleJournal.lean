import ToyMtFramework.ScheduleEventMeaning
import ToyMtFramework.SchedulePathReports

/-! A journal of the events of a stream: those that the source has given it and, with its log, each
that is finished. In a run in which no module is reset under a call of `doWorkAsync` the stream
finishes the events in the order in which it was given them, and each as if it were alone. -/
namespace ToyMtFramework.Schedule.Loop
open Activities Transition

variable {L D E : Type}

structure Finished (L D E : Type) where
  eventIndex : Nat
  log : List (Entry L D E)
  exceptionPtr : Option E

structure Journal (L D E : Type) where
  accepted : List Nat
  finished : List (Finished L D E)

def Journal.empty (L D E : Type) : Journal L D E :=
  ⟨[],[]⟩

def journalled (sh : LoopShared L D E) (log : List (Entry L D E)) (j : Journal L D E) :
    LoopFrame L D E → Journal L D E
  | .eventReset [] _ => {j with accepted := j.accepted ++ sh.source.head?.toList}
  | .schedule (.callback e) => {j with finished := j.finished ++ [⟨sh.schedule.eventIndex,log,e⟩]}
  | _ => j

def journal (s : State L D E × List (Entry L D E)) (a : Action) (j : Journal L D E) : Journal L D E :=
  match a with
  | .act thread _ => (s.1.top thread).elim j (journalled s.1.shared s.2 j)
  | .otherStreamFails => j

variable [DecidableEq L] [DecidableEq D]

def nextJournalled (framework : Framework) (job : Job L D E) :
    (State L D E × List (Entry L D E)) × Journal L D E → Action →
      Option ((State L D E × List (Entry L D E)) × Journal L D E) :=
  recording (nextLogged framework job) journal

variable {job : Job L D E}

def underway : LoopFrame L D E → Nat
  | .schedule f => ending f
  | .scheduleReset _ _ => 1
  | _ => 0

def inProgress (sh : Shared L D E) (bag : Multiset (LoopFrame L D E)) : Nat :=
  weigh underway bag + min 1 (sh.refCount .allPathsDone)

/-- No task has a holder between two events. -/
def Unheld (Outside : Option (LoopFrame L D E) → Shared L D E → List (Entry L D E) → Prop)
    (c : Option (LoopFrame L D E)) (sh : Shared L D E) (log : List (Entry L D E)) : Prop :=
  Outside c sh log ∧ ∀ t, sh.refCount t = 0

theorem refCount_controls {sh after : LoopShared L D E} {c : LoopFrame L D E} {d : Option (LoopFrame L D E)}
    (acts : Controls job sh c after d) : after.schedule.refCount = sh.schedule.refCount := by
  cases acts <;> rfl

theorem Rule.unheld {Inside : Shared L D E → Multiset (Frame L D E) → List (Entry L D E) → Prop}
    {Outside : Option (LoopFrame L D E) → Shared L D E → List (Entry L D E) → Prop}
    (rule : Rule job Inside Outside) : Rule job Inside (Unheld Outside) where
  start := ⟨rule.start,fun _ => rfl⟩
  blank := rule.blank
  react := rule.react
  release := fun round holds => ⟨rule.release round holds,
    fun t => round.task_over (round.over_ending (Multiset.mem_cons_self _ _) rfl (by simp)) t⟩
  control := fun acts holds => ⟨rule.control acts holds.1,by
    rw [refCount_controls acts]
    exact holds.2⟩
  begin := fun between round holds => rule.begin between round holds.1
  fatalInside := rule.fatalInside
  fatalOutside := fun holds => ⟨rule.fatalOutside holds.1,holds.2⟩

theorem weigh_underway (frames : Multiset (Frame L D E)) :
    weigh underway (frames.map LoopFrame.schedule) = weigh ending frames :=
  weigh_map _ _ _

theorem refused_underway {sh : Shared L D E} {frames : Multiset (Frame L D E)} (refused : Refused sh frames) :
    weigh underway (frames.map LoopFrame.schedule) = 0 := by
  rw [weigh_underway]
  refine weigh_light fun f member => ?_
  obtain ⟨w,added,rfl,_⟩ := refused f member
  rfl

def completes : LoopFrame L D E → Nat
  | .schedule (.callback _) => 1
  | _ => 0

def accepts (sh : LoopShared L D E) : LoopFrame L D E → Nat
  | .eventReset [] _ => sh.source.head?.toList.length
  | _ => 0

section Phases
variable {Inside : Shared L D E → Multiset (Frame L D E) → List (Entry L D E) → Prop}
  {Outside : Option (LoopFrame L D E) → Shared L D E → List (Entry L D E) → Prop}
  {sh : LoopShared L D E} {log : List (Entry L D E)} {bag rest : Multiset (LoopFrame L D E)}
  {g : LoopFrame L D E} {seed : Nat} {r : Reaction (LoopShared L D E) (LoopFrame L D E)}

/-- A stream has at most one event in progress. -/
theorem Phase.single {sh : Shared L D E} (phase : Phase job Inside (Unheld Outside) sh log bag) :
    inProgress sh bag ≤ 1 := by
  unfold inProgress
  cases phase with
  | inside frames round history holds =>
    have schedule := round.counts.schedule
    rw [weigh_underway]
    omega
  | between c frames outside between fresh history holds =>
    rw [weigh_cons,refused_underway between.refused,holds.2]
    cases c <;> simp [underway] at outside ⊢
  | ended frames refused holds =>
    rw [refused_underway refused,holds.2]
    simp

/-- A stream that asks for an event has none in progress. -/
theorem Phase.asking {sh : Shared L D E} (phase : Phase job Inside (Unheld Outside) sh log bag)
    {ks : List (L × D)} {step : ResetStep} (member : .eventReset ks step ∈ bag) : inProgress sh bag = 0 := by
  cases phase with
  | inside frames round history holds => simp at member
  | ended frames refused holds => simp at member
  | between c frames outside between fresh history holds =>
    obtain rfl : .eventReset ks step = c := by simpa using member
    rw [inProgress,weigh_cons,refused_underway between.refused,holds.2]
    rfl

theorem schedule_progress {f : Frame L D E} {others : Multiset (Frame L D E)}
    (counts : Counts job sh.schedule (f ::ₘ others)) (reacted : react job sh (.schedule f) seed = some r) :
    inProgress r.shared.schedule (r.frames + others.map .schedule) + completes (.schedule f) =
      inProgress sh.schedule ((f ::ₘ others).map .schedule) := by
  obtain ⟨inner,made,after,frames⟩ := react_schedule reacted
  have reacts := react_reacts made
  have schedule := counts.schedule
  have owners := counts.owners .allPathsDone
  rw [weigh_cons] at schedule owners
  have kept := ending_react owners (by omega) reacts
  have released : inner.shared.released.length = sh.schedule.released.length + completes (.schedule f) ∧
      weigh underway (↑(recursiveTask f) : Multiset (LoopFrame L D E)) = 0 := by
    cases reacts with
    | callback e => simp [recursiveTask,completes,underway]
    | _ => exact ⟨rfl,rfl⟩
  rw [inProgress,inProgress,after,frames,weigh_add,weigh_add,weigh_underway,weigh_underway,weigh_underway,
    weigh_cons,released.2]
  change weigh ending inner.frames + 0 + weigh ending others + min 1 (inner.shared.refCount .allPathsDone) + _ = _
  omega

/-- What the source answers. -/
theorem asked {step : ResetStep}
    (reacted : react job sh (.eventReset [] step) seed = some r) :
    (sh.source = [] ∧ r = ⟨{sh with schedule := refuseEvent sh.schedule seed},[],[]⟩) ∨
      ∃ n ns, sh.source = n :: ns ∧
      r = ⟨⟨setEventInfo sh.schedule n,ns⟩,[.scheduleReset (filterLabels job) .wrapper],[]⟩ := by
  cases source : sh.source with
  | nil =>
    simp only [react,source] at reacted
    refine Or.inl ⟨rfl,?_⟩
    rw [← Option.some.inj reacted,← source]
  | cons n ns =>
    simp only [react,source] at reacted
    exact Or.inr ⟨n,ns,rfl,(Option.some.inj reacted).symm⟩

/-- Events are accepted and finished one at a time. -/
theorem Phase.progress (phase : Phase job Inside (Unheld Outside) sh.schedule log bag) (split : bag = g ::ₘ rest)
    (reacted : Loop.react job sh g seed = some r) : inProgress r.shared.schedule (r.frames + rest) + completes g =
      inProgress sh.schedule bag + accepts sh g := by
  subst split
  by_cases inside : ∃ f, g = .schedule f
  · obtain ⟨f,rfl⟩ := inside
    change _ = _ + 0
    rw [Nat.add_zero]
    generalize whole : LoopFrame.schedule f ::ₘ rest = bag at phase
    cases phase with
    | inside frames round history holds =>
      obtain ⟨others,rfl,rfl⟩ := schedule_cons whole.symm
      rw [schedule_progress round.counts reacted]
    | between c frames outside between fresh history holds =>
      have member : .schedule f ∈ frames.map LoopFrame.schedule := by
        have present : .schedule f ∈ c ::ₘ frames.map LoopFrame.schedule := by simp [← whole]
        exact (Multiset.mem_cons.mp present).resolve_left (outside f).symm
      obtain ⟨h,present,same⟩ := Multiset.mem_map.mp member
      cases same
      obtain ⟨others,rfl⟩ := Multiset.exists_cons_of_mem present
      obtain ⟨inner,made,after,placed⟩ := react_schedule reacted
      obtain ⟨same,none⟩ := refused_react between.refused made
      obtain ⟨w,added,rfl,_⟩ := between.refused f (Multiset.mem_cons_self _ _)
      rw [Multiset.map_cons,Multiset.cons_swap] at whole
      obtain rfl := (Multiset.cons_inj_right _).mp whole
      simp [after,placed,none,same,inProgress,completes,underway,ending]
    | ended frames refused holds =>
      obtain ⟨others,rfl,rfl⟩ := schedule_cons whole.symm
      obtain ⟨inner,made,after,placed⟩ := react_schedule reacted
      obtain ⟨same,none⟩ := refused_react refused made
      obtain ⟨w,added,rfl,_⟩ := refused f (Multiset.mem_cons_self _ _)
      simp [after,placed,none,same,inProgress,completes,underway,ending]
  · have outside : ∀ f, g ≠ .schedule f := fun f same => inside ⟨f,same⟩
    rcases react_controls outside reacted with ⟨step,rfl,rfl⟩ | ⟨after,d,acts,shared,placed⟩
    · simp [inProgress,completes,accepts,underway,ending]
    · by_cases asks : ∃ step, g = .eventReset [] step
      · obtain ⟨step,rfl⟩ := asks
        rcases asked reacted with ⟨none,rfl⟩ | ⟨n,ns,some,rfl⟩
        · simp [inProgress,completes,accepts,underway,none,refuseEvent]
        · simp [inProgress,completes,accepts,underway,some,setEventInfo]
          omega
      · rw [inProgress,inProgress,shared,placed,weigh_add,weigh_cons,refCount_controls acts]
        cases acts with
        | exhausted step n => exact absurd ⟨step,rfl⟩ asks
        | accepted step n ns => exact absurd ⟨step,rfl⟩ asks
        | _ => simp [completes,accepts,underway]

/-- The index of the event stays until the source gives the next one. -/
theorem eventIndex_loop (reacted : react job sh g seed = some r) (unasked : ∀ step, g ≠ .eventReset [] step) :
    r.shared.schedule.eventIndex = sh.schedule.eventIndex := by
  by_cases inside : ∃ f, g = .schedule f
  · obtain ⟨f,rfl⟩ := inside
    obtain ⟨inner,made,after,_⟩ := react_schedule reacted
    rw [after]
    exact eventIndex_react (react_reacts made)
  · rcases react_controls (fun f same => inside ⟨f,same⟩) reacted with ⟨step,rfl,rfl⟩ | ⟨after,d,acts,shared,_⟩
    · rfl
    · rw [shared]
      cases acts with
      | accepted step n ns => exact absurd rfl (unasked step)
      | exhausted step n => exact absurd rfl (unasked step)
      | _ => rfl

/-- A frame that is not a refused call belongs to the event in progress. -/
theorem Phase.event {sh : Shared L D E} (phase : Phase job Inside Outside sh log bag) {f : Frame L D E}
    (member : .schedule f ∈ bag) (working : ∀ w added, f ≠ .startWork w added) :
    ∃ frames, bag = frames.map .schedule ∧ Inside sh frames log ∧ f ∈ frames := by
  cases phase with
  | inside frames round history holds =>
    obtain ⟨g,present,same⟩ := Multiset.mem_map.mp member
    cases same
    exact ⟨frames,rfl,holds,present⟩
  | between c frames outside between fresh history holds =>
    have present := (Multiset.mem_cons.mp member).resolve_left (outside _).symm
    exact absurd present (refused_absent between.refused working)
  | ended frames refused holds => exact absurd member (refused_absent refused working)

/-- The accepted events are finished in order, up to the one in progress. -/
def Accounted (sh : Shared L D E) (bag : Multiset (LoopFrame L D E)) (j : Journal L D E) : Prop :=
  j.accepted = j.finished.map Finished.eventIndex ++ if inProgress sh bag = 0 then [] else [sh.eventIndex]

theorem Accounted.react {j : Journal L D E} (accounted : Accounted sh.schedule bag j)
    (phase : Phase job Inside (Unheld Outside) sh.schedule log bag) (split : bag = g ::ₘ rest)
    (reacted : Loop.react job sh g seed = some r) (after : inProgress r.shared.schedule (r.frames + rest) ≤ 1) :
    Accounted r.shared.schedule (r.frames + rest) (journalled sh log j g) := by
  have progress := phase.progress split reacted
  have before := phase.single
  unfold Accounted at accounted ⊢
  by_cases asks : ∃ step, g = .eventReset [] step
  · obtain ⟨step,rfl⟩ := asks
    rcases asked reacted with ⟨empty,rfl⟩ | ⟨n,ns,some,rfl⟩
    · have none : inProgress sh.schedule bag = 0 := phase.asking (by simp [split] : .eventReset [] step ∈ bag)
      have same : inProgress (refuseEvent sh.schedule seed) rest = 0 := by
        simpa [completes,accepts,empty,none] using progress
      simpa [journalled,empty,same,none] using accounted
    · have given : accepts sh (.eventReset [] step : LoopFrame L D E) = 1 := by simp [accepts,some]
      rw [given] at progress
      change _ + 0 = _ at progress
      rw [if_pos (by omega),List.append_nil] at accounted
      rw [if_neg (by omega),journalled,some,accounted]
      rfl
  · by_cases ends : ∃ e, g = .schedule (.callback e)
    · obtain ⟨e,rfl⟩ := ends
      change _ + 1 = _ + 0 at progress
      rw [if_neg (by omega)] at accounted
      rw [if_pos (by omega),List.append_nil,journalled,List.map_append]
      exact accounted
    · have kept : journalled sh log j g = j := by
        unfold journalled
        split
        · exact absurd ⟨_,rfl⟩ asks
        · exact absurd ⟨_,rfl⟩ ends
        · rfl
      have still : completes g = 0 ∧ accepts sh g = 0 := by
        constructor
        · unfold completes
          split
          · exact absurd ⟨_,rfl⟩ ends
          · rfl
        · unfold accepts
          split
          · exact absurd ⟨_,rfl⟩ asks
          · rfl
      rw [still.1,still.2,Nat.add_zero,Nat.add_zero] at progress
      rw [progress,eventIndex_loop reacted (fun step same => asks ⟨step,same⟩),kept]
      exact accounted

omit [DecidableEq L] [DecidableEq D] in
/-- A finished event is an old one or the one whose callback acts. -/
theorem finished_react {j : Journal L D E} {x : Finished L D E} (member : x ∈ (journalled sh log j g).finished) :
    x ∈ j.finished ∨ ∃ e, g = .schedule (.callback e) ∧ x = ⟨sh.schedule.eventIndex,log,e⟩ := by
  unfold journalled at member
  split at member
  · exact Or.inl member
  · rcases List.mem_append.mp member with old | new
    · exact Or.inl old
    · exact Or.inr ⟨_,rfl,List.mem_singleton.mp new⟩
  · exact Or.inl member

end Phases

structure Streaming (plain : job.Plain) (sh : Shared L D E) (log : List (Entry L D E))
    (bag : Multiset (LoopFrame L D E)) (j : Journal L D E) : Prop where
  phase : Phase job (EventMeans plain) (Unheld (BetweenMeans job)) sh log bag
  fatal : sh.fatal = false
  accounted : Accounted sh bag j
  finished : ∀ x ∈ j.finished, x.exceptionPtr = none ∧ LogMeans plain x.eventIndex x.log

section Streaming
variable {plain : job.Plain} {sh : LoopShared L D E} {log : List (Entry L D E)}
  {bag rest : Multiset (LoopFrame L D E)} {j : Journal L D E} {g : LoopFrame L D E} {seed : Nat}
  {r : Reaction (LoopShared L D E) (LoopFrame L D E)}

theorem journalRule (plain : job.Plain) : Rule job (EventMeans plain) (Unheld (BetweenMeans job)) :=
  (meaningRule plain).unheld

/-- The flag stays unset: no module throws. -/
theorem Phase.unset (phase : Phase job (EventMeans plain) (Unheld (BetweenMeans job)) sh.schedule log bag)
    (unset : sh.schedule.fatal = false) (member : g ∈ bag) (reacted : Loop.react job sh g seed = some r) :
    r.shared.schedule.fatal = false := by
  by_cases inside : ∃ f, g = .schedule f
  · obtain ⟨f,rfl⟩ := inside
    obtain ⟨inner,made,after,_⟩ := react_schedule reacted
    have reacts := react_reacts made
    rw [after]
    cases reacts with
    | executeFailed e failed =>
      obtain ⟨frames,_,means,_⟩ := phase.event member (by simp)
      exact absurd (means.right.state.honest.tasks _ e failed) (means.quiet e)
    | _ => exact unset
  · rcases react_controls (fun f same => inside ⟨f,same⟩) reacted with ⟨step,rfl,rfl⟩ | ⟨after,d,acts,shared,_⟩
    · exact unset
    · rw [shared]
      cases acts <;> exact unset

theorem Streaming.react (streaming : Streaming plain sh.schedule log bag j) (split : bag = g ::ₘ rest)
    (quiet : ∀ w, resetting g = some w → ∀ added, .schedule (.startWork w added) ∉ bag)
    (reacted : Loop.react job sh g seed = some r) :
    Streaming plain r.shared.schedule (logged job sh log seed g) (r.frames + rest) (journalled sh log j g) := by
  obtain ⟨phase,unset,accounted,finished⟩ := streaming
  have member : g ∈ bag := by simp [split]
  have after := phase.react (journalRule plain) split quiet reacted
  refine ⟨after,phase.unset unset member reacted,accounted.react phase split reacted after.single,?_⟩
  intro x listed
  rcases finished_react listed with old | ⟨e,rfl,rfl⟩
  · exact finished x old
  · obtain ⟨frames,_,means,present⟩ := phase.event member (by simp)
    exact ⟨means.normal present,means.means unset present⟩

theorem Streaming.initial (plain : job.Plain) (source : List Nat) :
    Streaming plain (initial L D E source).shared.schedule [] (initial L D E source).bag (Journal.empty L D E) :=
  ⟨(journalRule plain).initial source,rfl,by
    simp [Accounted,Journal.empty,inProgress,Loop.initial,fresh,Pool.bag,underway],by simp [Journal.empty]⟩

def OnlyCalls (bag : Multiset (LoopFrame L D E)) : Prop :=
  ∀ g ∈ bag, ∃ w added, g = .schedule (.startWork w added)

omit [DecidableEq L] [DecidableEq D] in
theorem Refused.onlyCalls {sh : Shared L D E} {frames : Multiset (Frame L D E)} (refused : Refused sh frames) :
    OnlyCalls (frames.map LoopFrame.schedule) := by
  intro g member
  obtain ⟨f,present,rfl⟩ := Multiset.mem_map.mp member
  obtain ⟨w,added,rfl,_⟩ := refused f present
  exact ⟨w,added,rfl⟩

/-- Then no event is in progress. -/
theorem Phase.onlyCalls {sh : Shared L D E}
    (phase : Phase job (EventMeans plain) (Unheld (BetweenMeans job)) sh log bag) (only : OnlyCalls bag) :
    inProgress sh bag = 0 ∧ ∃ frames, bag = frames.map .schedule ∧ Refused sh frames := by
  cases phase with
  | inside frames round history holds =>
    exfalso
    have light (weight : Frame L D E → Nat) (none : ∀ w added, weight (.startWork w added) = 0) :
        weigh weight frames = 0 := by
      refine weigh_light fun f member => ?_
      obtain ⟨w,added,same⟩ := only (.schedule f) (Multiset.mem_map_of_mem _ member)
      cases same
      exact none w added
    have schedule := round.counts.schedule
    rw [round.counts.owners,light (owns .allPathsDone) fun _ _ => rfl,light ending fun _ _ => rfl,
      holds.right.unreleased] at schedule
    simp at schedule
  | between c frames outside between fresh history holds =>
    obtain ⟨w,added,same⟩ := only c (Multiset.mem_cons_self _ _)
    exact absurd same (outside _)
  | ended frames refused holds =>
    refine ⟨?_,frames,rfl,refused⟩
    rw [inProgress,refused_underway refused,holds.2]
    simp

/-- A stream that has nothing left to do has found the source empty. -/
theorem Streaming.exhausted (streaming : Streaming plain sh.schedule log bag j) (split : bag = g ::ₘ rest)
    (quiet : ∀ w, resetting g = some w → ∀ added, .schedule (.startWork w added) ∉ bag)
    (reacted : Loop.react job sh g seed = some r) (before : OnlyCalls bag → sh.source = [])
    (only : OnlyCalls (r.frames + rest)) : r.shared.source = [] := by
  have phase := streaming.phase
  have later := (streaming.react split quiet reacted).phase
  have left : OnlyCalls rest := fun h member => only h (Multiset.mem_add.mpr (Or.inr member))
  by_cases inside : ∃ f, g = .schedule f
  · obtain ⟨f,rfl⟩ := inside
    obtain ⟨inner,made,after,placed⟩ := react_schedule reacted
    rw [after]
    cases phase with
    | inside frames round history holds =>
      exfalso
      have progress := streaming.phase.progress split reacted
      rw [(later.onlyCalls only).1] at progress
      have schedule := round.counts.schedule
      rw [holds.right.unreleased] at schedule
      rw [inProgress,weigh_underway] at progress
      change 0 + completes _ = _ + 0 at progress
      have ends : ∃ e, f = .callback e := by
        by_contra going
        have none : completes (.schedule f : LoopFrame L D E) = 0 := by
          cases f <;> simp [completes] at going ⊢
        simp only [List.length_nil] at schedule
        omega
      obtain ⟨e,rfl⟩ := ends
      obtain ⟨w,added,same⟩ := only (.handleNextEventAsync e) (by simp [placed,recursiveTask])
      cases same
    | between c frames outside between fresh history holds =>
      have member : c ∈ LoopFrame.schedule f ::ₘ rest := by simp [← split]
      obtain ⟨w,added,same⟩ := left c ((Multiset.mem_cons.mp member).resolve_left (outside f))
      exact absurd same (outside _)
    | ended frames refused holds => exact before refused.onlyCalls
  · have outside : ∀ f, g ≠ .schedule f := fun f same => inside ⟨f,same⟩
    rcases react_controls outside reacted with ⟨step,rfl,rfl⟩ | ⟨after,d,acts,shared,placed⟩
    · obtain ⟨w,added,same⟩ := only (.schedule .runPaths) (by simp)
      cases same
    · rw [shared]
      cases d with
      | some d =>
        obtain ⟨w,added,same⟩ := only d (by simp [placed])
        exact absurd same (controls_outside acts _)
      | none =>
        cases acts with
        | exhausted step n =>
          rcases asked reacted with ⟨empty,_⟩ | ⟨n,ns,_,rfl⟩
          · exact empty
          · simp at placed
        | failed e =>
          exfalso
          have member : .handleNextEventAsync (some e) ∈ bag := by simp [split]
          cases phase with
          | inside frames round history holds => simp at member
          | ended frames refused holds => simp at member
          | between c frames control between fresh history holds =>
            obtain rfl : .handleNextEventAsync (some e) = c := by simpa using member
            exact holds.1.normal e rfl

/-- What the source has given is in the journal. -/
theorem source_react (log : List (Entry L D E)) (j : Journal L D E) (reacted : Loop.react job sh g seed = some r) :
    (journalled sh log j g).accepted ++ r.shared.source = j.accepted ++ sh.source := by
  by_cases asks : ∃ step, g = .eventReset [] step
  · obtain ⟨step,rfl⟩ := asks
    rcases asked reacted with ⟨empty,rfl⟩ | ⟨n,ns,some,rfl⟩
    · simp [journalled,empty]
    · simp [journalled,some]
  · have kept : (journalled sh log j g).accepted = j.accepted := by
      unfold journalled
      split
      · exact absurd ⟨_,rfl⟩ asks
      · rfl
      · rfl
    rw [kept]
    by_cases inside : ∃ f, g = .schedule f
    · obtain ⟨f,rfl⟩ := inside
      obtain ⟨inner,made,after,_⟩ := react_schedule reacted
      rw [after]
    · rcases react_controls (fun f same => inside ⟨f,same⟩) reacted with ⟨step,rfl,rfl⟩ | ⟨after,d,acts,shared,_⟩
      · rfl
      · rw [shared]
        cases acts with
        | accepted step n ns => exact absurd ⟨step,rfl⟩ asks
        | _ => rfl

/-- At rest nothing is in progress and nothing is left in the source. -/
theorem Streaming.atRest {sh : Shared L D E} (streaming : Streaming plain sh log bag j)
    (resting : ∀ g ∈ bag, ∃ l t, g = .schedule (.node l t) ∧ (sh.list l).waiting = true) : OnlyCalls bag := by
  intro g member
  obtain ⟨l,t,rfl,_⟩ := resting g member
  exfalso
  generalize whole : bag = all at resting member
  have phase := streaming.phase
  rw [whole] at phase
  cases phase with
  | inside frames round history holds =>
    have quiescent : Quiescent sh frames := by
      intro f present
      obtain ⟨l,t,same,waiting⟩ := resting (.schedule f) (Multiset.mem_map_of_mem _ present)
      cases same
      exact ⟨l,t,rfl,waiting⟩
    have released := round.quiescent_released plain.acyclic quiescent
    rw [holds.right.unreleased] at released
    cases released
  | between c frames outside between fresh history holds =>
    obtain ⟨l,t,same,_⟩ := resting c (Multiset.mem_cons_self _ _)
    exact outside _ same
  | ended frames refused holds => exact refused_absent refused (by simp) member

structure StreamRight (plain : job.Plain) (source : List Nat)
    (s : (State L D E × List (Entry L D E)) × Journal L D E) : Prop where
  streaming : Streaming plain s.1.1.shared.schedule s.1.2 s.1.1.bag s.2
  given : s.2.accepted ++ s.1.1.shared.source = source
  exhausted : OnlyCalls s.1.1.bag → s.1.1.shared.source = []

theorem StreamRight.next {framework : Framework} {source : List Nat}
    {s t : (State L D E × List (Entry L D E)) × Journal L D E} {a : Action} (right : StreamRight plain source s)
    (quiet : Quiet s.1.1 a) (calm : a ≠ .otherStreamFails) (taken : nextJournalled framework job s a = some t) :
    StreamRight plain source t := by
  obtain ⟨logged,journalled⟩ := recording_taken taken
  obtain ⟨moved,recorded⟩ := recording_taken logged
  cases a with
  | otherStreamFails => exact absurd rfl calm
  | act thread seed =>
    obtain ⟨streaming,given,exhausted⟩ := right
    obtain ⟨g,r,rest,reacted,shared,before,after,top⟩ := Pool.step_bag moved
    have member : g ∈ s.1.1.bag := by simp [before]
    rw [streaming.phase.reactIn_same (journalRule plain) framework member] at reacted
    have still (w : Wrapper L D) (resets : resetting g = some w) (added : Nat) :
        .schedule (.startWork w added) ∉ s.1.1.bag := by
      refine calling_absent (quiet w ?_) added
      simp [top,resets]
    rw [record,top,Option.elim_some] at recorded
    rw [journal,top,Option.elim_some] at journalled
    refine ⟨?_,?_,?_⟩
    · rw [shared,after,recorded,journalled]
      exact streaming.react before still reacted
    · rw [shared,journalled,source_react _ _ reacted,given]
    · rw [shared,after]
      exact streaming.exhausted before still reacted exhausted

end Streaming

/-- What a stream keeps with its journal, whatever the others do. A flag that another stream has set is
seen by all of them. -/
structure StreamRule (job : Job L D E) (Keeps : Shared L D E → List (Entry L D E) → Multiset (LoopFrame L D E) →
    Journal L D E → Prop) : Prop where
  start : Keeps (fresh E L D 0) [] {.handleNextEventAsync none} (Journal.empty L D E)
  react : ∀ {sh : LoopShared L D E} {log bag rest j g seed r}, Keeps sh.schedule log bag j → bag = g ::ₘ rest →
    (∀ w, resetting g = some w → ∀ added, .schedule (.startWork w added) ∉ bag) →
    Loop.react job sh g seed = some r →
      Keeps r.shared.schedule (logged job sh log seed g) (r.frames + rest) (journalled sh log j g)
  fatal : ∀ {failed log bag j} {sh : Shared L D E} {otherLog otherBag otherJournal},
    Keeps failed log bag j → failed.fatal = true → Keeps sh otherLog otherBag otherJournal →
      Keeps {sh with fatal := true} otherLog otherBag otherJournal

/-- No stream of a plain job sets the flag. -/
theorem streamingRule (plain : job.Plain) : StreamRule job (Streaming plain) where
  start := Streaming.initial plain []
  react := fun streaming split quiet reacted => streaming.react split quiet reacted
  fatal := fun streaming set _ => by
    rw [streaming.fatal] at set
    cases set

/-- As long as no other stream fails and no module is reset under a call of `doWorkAsync`, a stream
finishes the events that the source gives it in their order, each with what the event means and what
the single-threaded framework does in it, and at rest it has finished all of them. -/
theorem events_agree (framework : Framework) (job : Job L D E) (plain : job.Plain) (source : List Nat)
    (s : State L D E) (log : List (Entry L D E)) (j : Journal L D E)
    (run : Reaches (nextJournalled framework job) (fun t a => Quiet t.1.1 a ∧ a ≠ .otherStreamFails)
      ((initial L D E source,[]),Journal.empty L D E) ((s,log),j)) :
    j.accepted ++ s.shared.source = source ∧ j.finished.map Finished.eventIndex <+: j.accepted ∧
    (∀ x ∈ j.finished, x.exceptionPtr = none ∧ LogMeans plain x.eventIndex x.log ∧
      ∀ seed, ∀ᶠ depth in Filter.atTop, ∃ t, SingleThreaded.process job seed x.eventIndex depth
        (SingleThreaded.fresh L D) = .ok t ∧ AsSingleThreaded job x.log t) ∧
    (AtRest s → j.finished.map Finished.eventIndex = source) := by
  have preserved (s : (State L D E × List (Entry L D E)) × Journal L D E) (a : Action)
      (t : (State L D E × List (Entry L D E)) × Journal L D E) (right : StreamRight plain source s)
      (admitted : Quiet s.1.1 a ∧ a ≠ .otherStreamFails) (taken : nextJournalled framework job s a = some t) :
      StreamRight plain source t := right.next admitted.1 admitted.2 taken
  have start : StreamRight plain source ((initial L D E source,[]),Journal.empty L D E) :=
    ⟨Streaming.initial plain source,rfl,fun only => by
      obtain ⟨w,added,same⟩ := only (.handleNextEventAsync none) (by simp [initial,Pool.bag])
      cases same⟩
  obtain ⟨streaming,given,exhausted⟩ := run.invariant preserved start
  have accounted : j.accepted = j.finished.map Finished.eventIndex ++ _ := streaming.accounted
  refine ⟨given,⟨_,accounted.symm⟩,?_,?_⟩
  · intro x member
    obtain ⟨normal,means⟩ := streaming.finished x member
    exact ⟨normal,means,fun seed => means.agrees seed SingleThreaded.fresh_unrun⟩
  · intro resting
    have only := streaming.atRest resting
    have ended := streaming.phase.onlyCalls only
    rw [exhausted only,List.append_nil] at given
    rw [if_pos ended.1,List.append_nil] at accounted
    rw [← accounted]
    exact given

def sharedFilterEvents : List Action :=
  turns [(29,0),(4,4),(3,3),(1,7),(5,8),(3,2),(3,6),(3,9),(3,1),(3,10),(3,5),(2,11),(29,12),(4,16),(3,15),(1,19),
    (5,20),(3,14),(3,18),(3,21),(3,13),(3,22),(3,17),(2,23),(5,24)]

set_option maxRecDepth 4096 in
/-- The filter of `sharedFilter` keeps event 3 and rejects event 4, in OpenMP. -/
theorem events_agree_sharedFilter : ∃ s log j,
    execute (nextJournalled .openMP sharedFilter) ((initial Nat Unit Unit [3,4],[]),Journal.empty Nat Unit Unit)
      sharedFilterEvents = some ((s,log),j) ∧ j.finished.map Finished.eventIndex = [3,4] ∧
    ∀ x ∈ j.finished, x.exceptionPtr = none ∧ LogMeans sharedFilter_plain x.eventIndex x.log := by
  have ran : (execute (nextJournalled .openMP sharedFilter)
      ((initial Nat Unit Unit [3,4],[]),Journal.empty Nat Unit Unit) sharedFilterEvents).map
        (fun s => s.1.1.threads.all List.isEmpty) = some true := by decide +kernel
  obtain ⟨⟨⟨s,log⟩,j⟩,ran,empty⟩ := Option.map_eq_some_iff.mp ran
  have resting : AtRest s := by
    intro g member
    obtain ⟨stack,listed,inside⟩ := List.mem_flatten.mp (Multiset.mem_coe.mp member)
    have none := List.all_eq_true.mp empty stack listed
    rw [List.isEmpty_iff.mp none] at inside
    cases inside
  have right := events_agree .openMP sharedFilter sharedFilter_plain [3,4] s log j
    (execute_reaches sharedFilterEvents (by decide +kernel) ran)
  exact ⟨s,log,j,ran,right.2.2.2 resting,fun x member => ⟨(right.2.2.1 x member).1,(right.2.2.1 x member).2.1⟩⟩
end ToyMtFramework.Schedule.Loop
