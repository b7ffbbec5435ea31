import ToyMtFramework.ScheduleEffort

/-! Every stream of events comes to its end, whatever its modules do and however often another stream
fails. Each event adds a bounded number of steps, and where no thread can act nothing is left: the source
is empty, or an event has failed and the stream takes no further one. -/
namespace ToyMtFramework.Schedule.Loop
open Activities Transition

variable {L D E : Type} [DecidableEq L] [DecidableEq D] {job : Job L D E}

def ResetStep.rank : ResetStep → Nat
  | .wrapper => 2
  | .workStarted => 1
  | .waitingTasks => 0

def handleEffort (job : Job L D E) : Nat :=
  3 * (lookupMap job).length + 4

section Effort
variable (acyclic : job.Acyclic)

noncomputable def runEffort : Nat :=
  launchEffort acyclic (handleEffort job) (List.range job.paths.length) + 1

noncomputable def eventEffort : Nat :=
  3 * (filterLabels job).length + 3 + runEffort acyclic

noncomputable def loopEffort (index : Nat → Nat) : LoopFrame L D E → Nat
  | .schedule f => effort acyclic (handleEffort job) index f
  | .handleNextEventAsync (some _) => 1
  | .handleNextEventAsync none => handleEffort job
  | .eventReset ks step => 3 * ks.length + step.rank + 1
  | .scheduleReset ls step => 3 * ls.length + step.rank + 1 + runEffort acyclic

noncomputable def streamEffort (sh : LoopShared L D E) (bag : Multiset (LoopFrame L D E)) : Nat :=
  weigh (loopEffort acyclic sh.schedule.index) bag + sh.source.length * eventEffort acyclic

end Effort

section Steps
variable {Inside : Shared L D E → Multiset (Frame L D E) → List (Entry L D E) → Prop}
  {Outside : Option (LoopFrame L D E) → Shared L D E → List (Entry L D E) → Prop}
  {sh : LoopShared L D E} {log : List (Entry L D E)} {bag rest : Multiset (LoopFrame L D E)}
  {g : LoopFrame L D E} {seed : Nat} {r : Reaction (LoopShared L D E) (LoopFrame L D E)}

theorem weigh_loopEffort (acyclic : job.Acyclic) (index : Nat → Nat) (frames : Multiset (Frame L D E)) :
    weigh (loopEffort acyclic index) (frames.map LoopFrame.schedule) =
      weigh (effort acyclic (handleEffort job) index) frames :=
  weigh_map _ _ _

/-- What the callback leads to is what was set aside for it. -/
theorem schedule_effort (acyclic : job.Acyclic) {f : Frame L D E} {inner : Reaction (Shared L D E) (Frame L D E)}
    (reacts : Reacts job sh.schedule f inner) :
    weigh (effort acyclic (handleEffort job) inner.shared.index) inner.frames +
      weigh (loopEffort acyclic inner.shared.index) (↑(recursiveTask f) : Multiset (LoopFrame L D E)) <
        effort acyclic (handleEffort job) sh.schedule.index f := by
  have less := effort_react acyclic (handleEffort job) reacts
  cases reacts with
  | callback e => cases e <;> simp [recursiveTask,loopEffort,effort,handleEffort]
  | _ => simpa [recursiveTask] using less

/-- The other frames have to do what they had to. -/
theorem Phase.others_effort (acyclic : job.Acyclic) (phase : Phase job Inside Outside sh.schedule log bag)
    {f : Frame L D E} (split : bag = .schedule f ::ₘ rest) {inner : Reaction (Shared L D E) (Frame L D E)}
    (made : Schedule.react job sh.schedule f seed = some inner) :
    weigh (loopEffort acyclic inner.shared.index) rest = weigh (loopEffort acyclic sh.schedule.index) rest := by
  have member : .schedule f ∈ bag := by simp [split]
  have refused {frames : Multiset (Frame L D E)} (refused : Refused sh.schedule frames)
      (present : f ∈ frames) : inner.shared = sh.schedule := by
    obtain ⟨others,rfl⟩ := Multiset.exists_cons_of_mem present
    rw [(refused_react refused made).1]
  cases phase with
  | inside frames round history holds =>
    obtain ⟨others,rfl,rfl⟩ := schedule_cons split
    rw [weigh_loopEffort,weigh_loopEffort]
    exact effort_rest acyclic (handleEffort job) round.counts (react_reacts made)
  | between c frames outside between fresh history holds =>
    obtain ⟨h,present,same⟩ := Multiset.mem_map.mp ((Multiset.mem_cons.mp member).resolve_left (outside f).symm)
    cases same
    rw [refused between.refused present]
  | ended frames none holds =>
    obtain ⟨h,present,same⟩ := Multiset.mem_map.mp member
    cases same
    rw [refused none present]

/-- Every step of the stream leaves less to do. -/
theorem Phase.less_effort (acyclic : job.Acyclic) (phase : Phase job Inside Outside sh.schedule log bag)
    (split : bag = g ::ₘ rest) (reacted : Loop.react job sh g seed = some r) :
    streamEffort acyclic r.shared (r.frames + rest) < streamEffort acyclic sh bag := by
  cases g with
  | schedule f =>
    obtain ⟨inner,made,after,placed⟩ := react_schedule reacted
    have less := schedule_effort acyclic (react_reacts made)
    have others := phase.others_effort acyclic split made
    rw [streamEffort,streamEffort,after,placed,split,weigh_add,weigh_add,weigh_cons,weigh_loopEffort]
    dsimp only
    rw [others,loopEffort]
    omega
  | handleNextEventAsync e =>
    subst split
    cases e <;> cases reacted <;> simp [streamEffort,loopEffort,handleEffort,ResetStep.rank]
  | eventReset ks step =>
    subst split
    cases ks with
    | nil =>
      rcases asked reacted with ⟨empty,rfl⟩ | ⟨n,ns,some,rfl⟩
      · simp [streamEffort,loopEffort,refuseEvent]
      · simp [streamEffort,loopEffort,some,setEventInfo,eventEffort,ResetStep.rank,Nat.add_mul]
        omega
    | cons k ks =>
      cases step with
      | waitingTasks =>
        cases reacted
        simp [streamEffort,loopEffort,ResetStep.rank,resetWaitingTasks,Shared.setList]
        omega
      | _ =>
        cases reacted
        simp [streamEffort,loopEffort,ResetStep.rank,resetCache,resetWorkStarted]
  | scheduleReset ls step =>
    subst split
    cases ls with
    | nil =>
      cases reacted
      simp [streamEffort,loopEffort,effort,runEffort]
    | cons l ls =>
      cases step with
      | waitingTasks =>
        cases reacted
        simp [streamEffort,loopEffort,ResetStep.rank,resetWaitingTasks,Shared.setList]
        omega
      | _ =>
        cases reacted
        simp [streamEffort,loopEffort,ResetStep.rank,resetKeep,resetWorkStarted]

end Steps

def asking : LoopFrame L D E → Nat
  | .handleNextEventAsync _ | .eventReset _ _ => 1
  | _ => 0

/-- The stream is told to end, or the source has no event for it. -/
def closes (sh : LoopShared L D E) : LoopFrame L D E → Nat
  | .handleNextEventAsync (some _) => 1
  | .eventReset [] _ => if sh.source = [] then 1 else 0
  | _ => 0

def alive (sh : Shared L D E) (bag : Multiset (LoopFrame L D E)) : Nat :=
  inProgress sh bag + weigh asking bag

def Journal.Failed (j : Journal L D E) : Prop :=
  ∃ x ∈ j.finished, x.exceptionPtr ≠ none

/-- A stream ends when the source is empty or an event has failed. -/
structure Ending (sh : LoopShared L D E) (bag : Multiset (LoopFrame L D E)) (j : Journal L D E) : Prop where
  stopped : alive sh.schedule bag = 0 → sh.source = [] ∨ j.Failed
  told : ∀ e, .handleNextEventAsync (some e) ∈ bag → j.Failed

section Endings
variable {sh : LoopShared L D E} {log : List (Entry L D E)} {bag rest : Multiset (LoopFrame L D E)}
  {j : Journal L D E} {g : LoopFrame L D E} {seed : Nat} {r : Reaction (LoopShared L D E) (LoopFrame L D E)}

/-- The source is asked after a callback, and answers. -/
theorem asking_react (reacted : Loop.react job sh g seed = some r) :
    weigh asking r.frames + accepts sh g + closes sh g = asking g + completes g := by
  cases g with
  | schedule f =>
    obtain ⟨inner,made,after,placed⟩ := react_schedule reacted
    have silent : weigh asking (inner.frames.map LoopFrame.schedule) = 0 :=
      weigh_light fun g member => by
        obtain ⟨f,_,rfl⟩ := Multiset.mem_map.mp member
        rfl
    rw [placed,weigh_add,silent]
    cases f <;> simp [recursiveTask,asking,accepts,closes,completes]
  | handleNextEventAsync e => cases e <;> cases reacted <;> simp [asking,accepts,closes,completes]
  | eventReset ks step =>
    cases ks with
    | nil =>
      rcases asked reacted with ⟨empty,rfl⟩ | ⟨n,ns,some,rfl⟩
      · simp [asking,accepts,closes,completes,empty]
      · simp [asking,accepts,closes,completes,some]
    | cons k ks => cases step <;> cases reacted <;> simp [asking,accepts,closes,completes]
  | scheduleReset ls step =>
    cases ls with
    | nil =>
      cases reacted
      simp [asking,accepts,closes,completes]
    | cons l ls => cases step <;> cases reacted <;> simp [asking,accepts,closes,completes]

theorem alive_react (reporting : Reporting job sh.schedule log bag j) (split : bag = g ::ₘ rest)
    (reacted : Loop.react job sh g seed = some r) :
    alive r.shared.schedule (r.frames + rest) + closes sh g = alive sh.schedule bag := by
  have progress := reporting.phase.progress split reacted
  have asks := asking_react reacted
  rw [alive,alive,weigh_add,split,weigh_cons]
  rw [split] at progress
  omega

omit [DecidableEq L] [DecidableEq D] in
theorem Journal.Failed.later (failed : j.Failed) (sh : LoopShared L D E) (log : List (Entry L D E))
    (g : LoopFrame L D E) : (journalled sh log j g).Failed := by
  obtain ⟨x,member,thrown⟩ := failed
  refine ⟨x,?_,thrown⟩
  unfold journalled
  split
  · exact member
  · exact List.mem_append_left _ member
  · exact member

/-- Only a callback tells the stream of an exception. -/
theorem told_react (reacted : Loop.react job sh g seed = some r) {e : E}
    (member : .handleNextEventAsync (some e) ∈ r.frames) : g = .schedule (.callback (some e)) := by
  cases g with
  | schedule f =>
    obtain ⟨inner,made,after,placed⟩ := react_schedule reacted
    rw [placed] at member
    cases f <;> simp [recursiveTask] at member ⊢
    exact member.symm
  | _ =>
    rcases react_controls (by simp) reacted with ⟨step,same,rfl⟩ | ⟨after,d,acts,_,placed⟩
    · simp at member
    · rw [placed] at member
      cases acts <;> simp at member

theorem Ending.react (ending : Ending sh bag j) (reporting : Reporting job sh.schedule log bag j)
    (split : bag = g ::ₘ rest) (reacted : Loop.react job sh g seed = some r) :
    Ending r.shared (r.frames + rest) (journalled sh log j g) := by
  have progress := alive_react reporting split reacted
  refine ⟨fun stopped => ?_,fun e member => ?_⟩
  · by_cases going : closes sh g = 0
    · rcases ending.stopped (by omega) with empty | failed
      · have given := source_react log (Journal.empty L D E) reacted
        rw [empty] at given
        exact Or.inl (List.append_eq_nil_iff.mp given).2
      · exact Or.inr (failed.later sh log g)
    · unfold closes at going
      split at going
      · rename_i e
        have here : .handleNextEventAsync (some e) ∈ bag := by
          rw [split]
          exact Multiset.mem_cons_self _ _
        exact Or.inr ((ending.told e here).later sh log _)
      · rename_i step
        by_cases empty : sh.source = []
        · rcases asked reacted with ⟨_,rfl⟩ | ⟨n,ns,some,_⟩
          · exact Or.inl empty
          · rw [empty] at some
            cases some
        · exact absurd (if_neg empty) going
      · exact absurd rfl going
  · rcases Multiset.mem_add.mp member with new | old
    · obtain rfl := told_react reacted new
      exact ⟨_,List.mem_append_right _ (List.mem_singleton_self _),by simp⟩
    · exact (ending.told e (by simp [split,old])).later sh log g

end Endings

def acts : Action → Bool
  | .act _ _ => true
  | .otherStreamFails => false

/-- What is alone on its thread: a task in a list, and what goes from one event to the next. -/
def Apart : LoopFrame L D E → Prop
  | .schedule f => Parked f
  | _ => True

section Halts
variable {sh : LoopShared L D E} {log : List (Entry L D E)} {bag : Multiset (LoopFrame L D E)}
  {j : Journal L D E} {g : LoopFrame L D E}

theorem apart_calls {choice : Nat} {r : Reaction (LoopShared L D E) (LoopFrame L D E)}
    (reacted : Loop.react job sh g choice = some r) {c : LoopFrame L D E} (called : c ∈ r.calls)
    (apart : Apart c) : Apart g ∧ r.calls = [c] := by
  cases g with
  | schedule f =>
    obtain ⟨inner,made,rfl⟩ := Option.map_eq_some_iff.mp reacted
    obtain ⟨h,member,rfl⟩ := List.mem_map.mp called
    exact absurd apart (calls_go (react_reacts made) h member)
  | handleNextEventAsync e =>
    cases e <;> cases reacted <;> simp at called
    exact ⟨trivial,by rw [called]⟩
  | eventReset ks step =>
    refine ⟨trivial,?_⟩
    cases ks with
    | nil =>
      rcases asked reacted with ⟨_,rfl⟩ | ⟨n,ns,_,rfl⟩
      · simp at called
      · rw [List.mem_singleton.mp called]
    | cons k ks => cases step <;> cases reacted <;> rw [List.mem_singleton.mp called]
  | scheduleReset ls step =>
    refine ⟨trivial,?_⟩
    cases ls with
    | nil =>
      cases reacted
      rw [List.mem_singleton.mp called]
    | cons l ls => cases step <;> cases reacted <;> rw [List.mem_singleton.mp called]

theorem control_goes (outside : ∀ f, g ≠ .schedule f) : ∃ r, Loop.react job sh g 0 = some r := by
  cases g with
  | schedule f => exact absurd rfl (outside f)
  | handleNextEventAsync e => cases e <;> exact ⟨_,rfl⟩
  | eventReset ks step =>
    cases ks with
    | nil => cases given : sh.source <;> simp [Loop.react,given]
    | cons k ks => cases step <;> exact ⟨_,rfl⟩
  | scheduleReset ls step =>
    cases ls with
    | nil => exact ⟨_,rfl⟩
    | cons l ls => cases step <;> exact ⟨_,rfl⟩

/-- Whatever is not in a list can act. -/
theorem Reporting.goes_on (closed : job.Closed) (reporting : Reporting job sh.schedule log bag j)
    {f : Frame L D E} (member : .schedule f ∈ bag) (goes : ¬Parked f) :
    ∃ r, Loop.react job sh (.schedule f) 0 = some r := by
  have inner : ∃ r, Schedule.react job sh.schedule f 0 = some r := by
    have refused {frames : Multiset (Frame L D E)} (refused : Refused sh.schedule frames) (present : f ∈ frames) :
        ∃ r, Schedule.react job sh.schedule f 0 = some r := by
      obtain ⟨w,added,rfl,started⟩ := refused f present
      refine ⟨⟨sh.schedule,[],[]⟩,?_⟩
      simp only [Schedule.react,started,if_true]
    cases reporting.phase with
    | inside frames round history holds =>
      obtain ⟨h,present,same⟩ := Multiset.mem_map.mp member
      cases same
      exact Schedule.goes_on closed (round.sourced f present) (holds.right.paths.placed f present) goes
    | between c frames outside between fresh history holds =>
      obtain ⟨h,present,same⟩ := Multiset.mem_map.mp ((Multiset.mem_cons.mp member).resolve_left (outside f).symm)
      cases same
      exact refused between.refused present
    | ended frames none holds =>
      obtain ⟨h,present,same⟩ := Multiset.mem_map.mp member
      cases same
      exact refused none present
  obtain ⟨r,made⟩ := inner
  exact ⟨_,by rw [Loop.react,made,Option.map_some]⟩

/-- Where only tasks in lists are left that wait there is nothing left. -/
theorem Reporting.empty (acyclic : job.Acyclic) (reporting : Reporting job sh.schedule log bag j)
    (resting : ∀ g ∈ bag, ∃ l t, g = .schedule (.node l t) ∧ (sh.schedule.list l).waiting = true) :
    bag = 0 ∧ ∀ t, sh.schedule.refCount t = 0 := by
  cases reporting.phase with
  | inside frames round history holds =>
    have quiescent : Quiescent sh.schedule frames := by
      intro f present
      obtain ⟨l,t,same,waiting⟩ := resting (.schedule f) (Multiset.mem_map_of_mem _ present)
      cases same
      exact ⟨l,t,rfl,waiting⟩
    have released := round.quiescent_released acyclic quiescent
    rw [holds.right.unreleased] at released
    cases released
  | between c frames outside between fresh history holds =>
    obtain ⟨l,t,same,_⟩ := resting c (Multiset.mem_cons_self _ _)
    exact absurd same (outside _)
  | ended frames none holds =>
    refine ⟨Multiset.eq_zero_of_forall_notMem fun g member => ?_,holds.2⟩
    obtain ⟨f,present,rfl⟩ := Multiset.mem_map.mp member
    obtain ⟨w,added,rfl,_⟩ := none f present
    obtain ⟨l,t,same,_⟩ := resting _ member
    cases same

end Halts

structure Settling (job : Job L D E) (s : (State L D E × List (Entry L D E)) × Journal L D E) : Prop where
  reporting : Reporting job s.1.1.shared.schedule s.1.2 s.1.1.bag s.2
  ending : Ending s.1.1.shared s.1.1.bag s.2
  alone : s.1.1.Alone Apart

section Runs
variable {framework : Framework} {source : List Nat} {s t : (State L D E × List (Entry L D E)) × Journal L D E}
  {a : Action}

theorem Settling.next (settling : Settling job s) (acyclic : job.Acyclic) (quiet : Quiet s.1.1 a)
    (taken : nextJournalled framework job s a = some t) : Settling job t ∧
      streamEffort acyclic t.1.1.shared t.1.1.bag + (if acts a then 1 else 0) ≤
        streamEffort acyclic s.1.1.shared s.1.1.bag := by
  obtain ⟨reporting,ending,alone⟩ := settling
  obtain ⟨logged,journalled⟩ := recording_taken taken
  obtain ⟨moved,recorded⟩ := recording_taken logged
  cases a with
  | otherStreamFails =>
    obtain ⟨⟨u,log⟩,j⟩ := t
    cases moved
    cases recorded
    cases journalled
    exact ⟨⟨⟨reporting.phase.fatal (tellsRule job),reporting.accounted,reporting.finished⟩,
      ⟨ending.stopped,ending.told⟩,alone⟩,Nat.le_refl _⟩
  | act thread seed =>
    have same {f : LoopFrame L D E} (member : f ∈ s.1.1.bag) :
        reactIn framework job s.1.1.shared f seed = Loop.react job s.1.1.shared f seed :=
      reporting.phase.reactIn_same (tellsRule job) framework member seed
    have kept : t.1.1.Alone Apart := by
      refine alone.step (fun f r top reacted g called apart => ?_) moved
      rw [same (Pool.top_mem top)] at reacted
      exact apart_calls reacted called apart
    obtain ⟨g,r,rest,reacted,shared,before,after,top⟩ := Pool.step_bag moved
    have member : g ∈ s.1.1.bag := by simp [before]
    rw [same member] at reacted
    have still (w : Wrapper L D) (resets : resetting g = some w) (added : Nat) :
        .schedule (.startWork w added) ∉ s.1.1.bag := by
      refine calling_absent (quiet w ?_) added
      simp [top,resets]
    rw [record,top,Option.elim_some] at recorded
    rw [journal,top,Option.elim_some] at journalled
    have less := reporting.phase.less_effort acyclic before reacted
    refine ⟨⟨?_,?_,kept⟩,?_⟩
    · rw [shared,after,recorded,journalled]
      exact (reportingRule job).react reporting before still reacted
    · rw [shared,after,journalled]
      exact ending.react reporting before reacted
    · rw [shared,after]
      exact less

theorem Settling.initial (job : Job L D E) (source : List Nat) :
    Settling job ((Loop.initial L D E source,[]),Journal.empty L D E) := by
  refine ⟨(reportingRule job).start,⟨fun stopped => ?_,fun e member => ?_⟩,fun stack listed g inside _ => ?_⟩
  · simp [alive,Loop.initial,Pool.bag,asking] at stopped
  · simp [Loop.initial,Pool.bag] at member
  · obtain rfl := List.mem_singleton.mp listed
    rw [List.mem_singleton.mp inside]

/-- Where the threads of a stream stop, nothing is left of it. -/
theorem Settling.stopped (settling : Settling job s) (closed : job.Closed)
    (stops : Stops (nextJournalled framework job) (fun t a => Quiet t.1.1 a ∧ a ≠ .otherStreamFails) s) :
    s.1.1.bag = 0 ∧ ∀ t, s.1.1.shared.schedule.refCount t = 0 := by
  obtain ⟨reporting,ending,alone⟩ := settling
  have still {k : Nat} {g : LoopFrame L D E} (top : s.1.1.top k = some g)
      (quiet : ∀ w, resetting g = some w → weigh (calling w) s.1.1.bag = 0) (r : Reaction (LoopShared L D E) (LoopFrame L D E)) :
      Loop.react job s.1.1.shared g 0 ≠ some r := by
    intro reacted
    rw [← reporting.phase.reactIn_same (tellsRule job) framework (Pool.top_mem top)] at reacted
    obtain ⟨t,taken⟩ := Pool.top_acts top reacted
    have none := stops (.act k 0) ⟨by simpa [Quiet,top] using quiet,by simp⟩
    simp [nextJournalled,nextLogged,recording,nextIn,taken] at none
  have tops (k : Nat) (g : LoopFrame L D E) (top : s.1.1.top k = some g) : Apart g := by
    cases g with
    | schedule f =>
      by_contra goes
      obtain ⟨r,reacted⟩ := reporting.goes_on closed (Pool.top_mem top) goes
      exact still top (by simp [resetting]) r reacted
    | _ => trivial
  have waiting := alone.waiting tops
  refine reporting.empty closed.acyclic fun g member => ?_
  obtain ⟨apart,k,thread⟩ := waiting g member
  have top : s.1.1.top k = some g := by simp [Pool.top,thread]
  have uncalled (w : Wrapper L D) : weigh (calling w) s.1.1.bag = 0 := by
    refine weigh_light fun c present => ?_
    have parked := (waiting c present).1
    cases c with
    | schedule f => cases f <;> first | rfl | cases parked
    | _ => rfl
  have stands := still top fun w _ => uncalled w
  by_cases inside : ∃ f, g = .schedule f
  · obtain ⟨f,rfl⟩ := inside
    cases f with
    | node l t =>
      refine ⟨l,t,rfl,?_⟩
      by_contra resumed
      exact stands ⟨s.1.1.shared,[.schedule (.doneWaitingTask t (s.1.1.shared.schedule.list l).exceptionPtr)],[]⟩
        (by simp [Loop.react,Schedule.react,resumed,recursiveTask])
    | _ => cases apart
  · obtain ⟨r,reacted⟩ := control_goes fun f same => inside ⟨f,same⟩
    exact absurd reacted (stands r)

end Runs

/-- No stream is without end, whatever its modules throw and however often another stream fails: a run
of it has no more steps than a bound, and can be taken on until no thread can act. Then nothing is
left of it, all it was given is finished, and the source is empty unless an event has failed. -/
theorem events_end (framework : Framework) (job : Job L D E) (closed : job.Closed) (source : List Nat) :
    ∃ bound, ∀ actions s log j,
      Admitted (nextJournalled framework job) (fun t a => Quiet t.1.1 a)
        ((initial L D E source,[]),Journal.empty L D E) actions →
      execute (nextJournalled framework job) ((initial L D E source,[]),Journal.empty L D E) actions =
        some ((s,log),j) →
      actions.countP acts ≤ bound ∧
      (∃ more t, Admitted (nextJournalled framework job) (fun t a => Quiet t.1.1 a ∧ a ≠ .otherStreamFails)
          ((s,log),j) more ∧ execute (nextJournalled framework job) ((s,log),j) more = some t ∧
        Stops (nextJournalled framework job) (fun t a => Quiet t.1.1 a ∧ a ≠ .otherStreamFails) t) ∧
      (Stops (nextJournalled framework job) (fun t a => Quiet t.1.1 a ∧ a ≠ .otherStreamFails) ((s,log),j) →
        s.bag = 0 ∧ j.finished.map Finished.eventIndex = j.accepted ∧
        (s.shared.source = [] ∨ ∃ x ∈ j.finished, ∃ e, x.exceptionPtr = some e ∧ Raised x.log e)) := by
  have keeps (s : (State L D E × List (Entry L D E)) × Journal L D E) (a : Action)
      (t : (State L D E × List (Entry L D E)) × Journal L D E) (settling : Settling job s) (quiet : Quiet s.1.1 a)
      (taken : nextJournalled framework job s a = some t) : Settling job t :=
    (settling.next closed.acyclic quiet taken).1
  have less (s : (State L D E × List (Entry L D E)) × Journal L D E) (a : Action)
      (t : (State L D E × List (Entry L D E)) × Journal L D E) (settling : Settling job s) (quiet : Quiet s.1.1 a)
      (taken : nextJournalled framework job s a = some t) :
      streamEffort closed.acyclic t.1.1.shared t.1.1.bag + (if acts a then 1 else 0) ≤
        streamEffort closed.acyclic s.1.1.shared s.1.1.bag := (settling.next closed.acyclic quiet taken).2
  refine ⟨streamEffort closed.acyclic (initial L D E source).shared (initial L D E source).bag,
    fun actions s log j admitted ran => ?_⟩
  have start := Settling.initial job source
  have settling : Settling job ((s,log),j) :=
    (execute_reaches actions admitted ran).invariant keeps start
  have short := Admitted.bounded keeps less actions start admitted ran
  refine ⟨Nat.le_of_add_right_le short,?_,fun stops => ?_⟩
  · have strictly (s : (State L D E × List (Entry L D E)) × Journal L D E) (a : Action)
        (t : (State L D E × List (Entry L D E)) × Journal L D E) (settling : Settling job s)
        (meets : Quiet s.1.1 a ∧ a ≠ .otherStreamFails) (taken : nextJournalled framework job s a = some t) :
        streamEffort closed.acyclic t.1.1.shared t.1.1.bag <
          streamEffort closed.acyclic s.1.1.shared s.1.1.bag := by
      have step := less s a t settling meets.1 taken
      cases a with
      | otherStreamFails => exact absurd rfl meets.2
      | act thread seed => exact step
    exact stops_reached (fun s a t settling meets taken => keeps s a t settling meets.1 taken) strictly _ settling
  · obtain ⟨empty,unheld⟩ : s.bag = 0 ∧ ∀ t, s.shared.schedule.refCount t = 0 := settling.stopped closed stops
    have none : inProgress s.shared.schedule s.bag = 0 := by simp [inProgress,empty,unheld]
    have stopped : alive s.shared.schedule s.bag = 0 := by
      rw [alive,none,empty]
      rfl
    have accounted : j.accepted = _ := settling.reporting.accounted
    rw [if_pos none,List.append_nil] at accounted
    refine ⟨empty,accounted.symm,?_⟩
    rcases settling.ending.stopped stopped with exhausted | ⟨x,member,failed⟩
    · exact Or.inl exhausted
    · obtain ⟨e,thrown⟩ := Option.ne_none_iff_exists'.mp failed
      exact Or.inr ⟨x,member,e,thrown,(settling.reporting.finished x member).1 e thrown⟩

/-- Both events of the source come to their end. -/
theorem events_end_sharedFilter : ∃ actions s log j,
    execute (nextJournalled .openMP sharedFilter) ((initial Nat Unit Unit [3,4],[]),Journal.empty Nat Unit Unit)
      actions = some ((s,log),j) ∧ s.bag = 0 ∧ j.finished.map Finished.eventIndex = j.accepted := by
  obtain ⟨bound,ends⟩ := events_end .openMP sharedFilter sharedFilter_plain.closed [3,4]
  obtain ⟨_,⟨actions,⟨⟨s,log⟩,j⟩,admitted,ran,stops⟩,_⟩ := ends [] _ [] _ trivial rfl
  have quiet := admitted.weaken (fun _ _ meets => meets.1) actions
  obtain ⟨_,_,ended⟩ := ends actions s log j quiet ran
  obtain ⟨empty,finished,_⟩ := ended stops
  exact ⟨actions,s,log,j,ran,empty,finished⟩

end ToyMtFramework.Schedule.Loop
