import ToyMtFramework.ScheduleFrameworks

/-! The proof rule for what holds of an event and its log in every run of the stream in which
no module is reset under a call of `doWorkAsync`. It asks for an invariant of the frames of an event
and for one of what is between two events, and shows that OpenMP then does what TBB does. -/
namespace ToyMtFramework.Schedule
open Activities Transition

variable {L D E : Type} [DecidableEq L] [DecidableEq D] {job : Job L D E}

def speaks : Frame L D E → Bool
  | .runAsync _ | .body _ [] _ | .doneWaiting _ _ => true
  | _ => false

inductive Logs (job : Job L D E) (sh : Shared L D E) :
    Frame L D E → Reaction (Shared L D E) (Frame L D E) → List (Entry L D E) → Prop
  | silent (f : Frame L D E) (r : Reaction (Shared L D E) (Frame L D E)) (reacts : Reacts job sh f r)
      (silent : speaks f = false) (unrequested : ∀ p i, f = .runFilterAsync p i → sh.fatal = true) :
      Logs job sh f r []
  | runAsync (p : Nat) (r : Reaction (Shared L D E) (Frame L D E)) (reacts : Reacts job sh (.runAsync p) r) :
      Logs job sh (.runAsync p) r [.runAsync p]
  | requested (p i : Nat) (label : L) (fatal : sh.fatal = false) (at_i : (job.path p)[i]? = some label) :
      Logs job sh (.runFilterAsync p i) ⟨(sh.setIndex p i).hold (.nextFilter p),
        [.doWorkAsync (.filter label) (.nextFilter p)],[]⟩ [.requested p i]
  | performed (w : Wrapper L D) (values : List Int) (seed : Nat) (outcome : Outcome D E)
      (performed : outcome = job.perform w seed sh.eventIndex values) :
      Logs job sh (.body w [] values)
        ⟨sh.finish w outcome,[.doneWaiting (.waitingTasks w) outcome.thrown],[]⟩ [.performed w outcome]
  | finished (w : Wrapper L D) (e : Option E) : Logs job sh (.doneWaiting (.waitingTasks w) e)
      ⟨sh.setList (.waitingTasks w) ⟨false,e⟩,[],[]⟩ [.finished w e]
  | reported (p : Nat) (e : Option E) : Logs job sh (.doneWaiting (.callback p) e)
      ⟨sh.setList (.callback p) ⟨false,e⟩,[],[]⟩ [.reported p e]

theorem Logs.reacts {sh : Shared L D E} {f : Frame L D E} {r : Reaction (Shared L D E) (Frame L D E)}
    {es : List (Entry L D E)} (logs : Logs job sh f r es) : Reacts job sh f r := by
  cases logs with
  | silent _ _ reacts _ _ => exact reacts
  | runAsync _ _ reacts => exact reacts
  | requested p i label fatal at_i => exact .runFilter p i label fatal at_i
  | performed w values seed outcome performed => exact .body w values seed outcome performed
  | finished w e => exact .doneWaiting _ e
  | reported p e => exact .doneWaiting _ e

theorem react_logs {sh : Shared L D E} {f : Frame L D E} {seed : Nat}
    {r : Reaction (Shared L D E) (Frame L D E)} (reacted : react job sh f seed = some r) :
    Logs job sh f r (entries job sh f seed) := by
  have reacts := react_reacts reacted
  cases f with
  | runAsync p => exact .runAsync p r reacts
  | runFilterAsync p i =>
    cases reacts with
    | runFatal _ _ fatal =>
      rw [entries,if_pos fatal]
      exact .silent _ _ (.runFatal p i fatal) rfl fun _ _ _ => fatal
    | runFilter _ _ label fatal at_i =>
      rw [entries,if_neg (by simp [fatal])]
      exact .requested p i label fatal at_i
  | body w gs values =>
    cases gs with
    | cons g gs => exact .silent _ _ reacts rfl (by simp)
    | nil =>
      cases reacted
      exact .performed w values seed _ rfl
  | doneWaiting l e =>
    cases reacted
    cases l with
    | waitingTasks w => exact .finished w e
    | callback p => exact .reported p e
  | _ => exact .silent _ _ reacts rfl (by simp)

namespace Loop

/-- What the frame between two events does, and what is there then: nothing at the end of the stream. -/
inductive Controls (job : Job L D E) (sh : LoopShared L D E) :
    LoopFrame L D E → LoopShared L D E → Option (LoopFrame L D E) → Prop
  | failed (e : E) : Controls job sh (.handleNextEventAsync (some e)) sh none
  | handle : Controls job sh (.handleNextEventAsync none) sh (some (.eventReset (lookupMap job) .wrapper))
  | exhausted (step : ResetStep) (eventIndex : Nat) : Controls job sh (.eventReset [] step)
      {sh with schedule := refuseEvent sh.schedule eventIndex} none
  | accepted (step : ResetStep) (eventIndex : Nat) (source : List Nat) :
      Controls job sh (.eventReset [] step) ⟨setEventInfo sh.schedule eventIndex,source⟩
        (some (.scheduleReset (filterLabels job) .wrapper))
  | resetCache (k : L × D) (ks : List (L × D)) : Controls job sh (.eventReset (k :: ks) .wrapper)
      {sh with schedule := resetCache sh.schedule k.1 k.2} (some (.eventReset (k :: ks) .workStarted))
  | producerStarted (k : L × D) (ks : List (L × D)) : Controls job sh (.eventReset (k :: ks) .workStarted)
      {sh with schedule := resetWorkStarted sh.schedule (.producer k.1 k.2)}
      (some (.eventReset (k :: ks) .waitingTasks))
  | producerTasks (k : L × D) (ks : List (L × D)) : Controls job sh (.eventReset (k :: ks) .waitingTasks)
      {sh with schedule := resetWaitingTasks sh.schedule (.producer k.1 k.2)} (some (.eventReset ks .wrapper))
  | resetKeep (l : L) (ls : List L) : Controls job sh (.scheduleReset (l :: ls) .wrapper)
      {sh with schedule := resetKeep sh.schedule l} (some (.scheduleReset (l :: ls) .workStarted))
  | filterStarted (l : L) (ls : List L) : Controls job sh (.scheduleReset (l :: ls) .workStarted)
      {sh with schedule := resetWorkStarted sh.schedule (.filter l)}
      (some (.scheduleReset (l :: ls) .waitingTasks))
  | filterTasks (l : L) (ls : List L) : Controls job sh (.scheduleReset (l :: ls) .waitingTasks)
      {sh with schedule := resetWaitingTasks sh.schedule (.filter l)} (some (.scheduleReset ls .wrapper))

theorem react_controls {sh : LoopShared L D E} {c : LoopFrame L D E} (outside : ∀ f, c ≠ .schedule f)
    {seed : Nat} {r : Reaction (LoopShared L D E) (LoopFrame L D E)} (reacted : react job sh c seed = some r) :
    (∃ step, c = .scheduleReset [] step ∧ r = ⟨sh,[.schedule .runPaths],[]⟩) ∨
      ∃ after d, Controls job sh c after d ∧ r.shared = after ∧ r.frames = ↑d.toList := by
  cases c with
  | schedule f => exact absurd rfl (outside f)
  | handleNextEventAsync e =>
    cases e with
    | none =>
      cases reacted
      exact Or.inr ⟨_,_,.handle,rfl,rfl⟩
    | some x =>
      cases reacted
      exact Or.inr ⟨_,_,.failed x,rfl,rfl⟩
  | eventReset ks step =>
    cases ks with
    | nil =>
      cases source : sh.source with
      | nil =>
        simp only [react,source] at reacted
        cases reacted
        exact Or.inr ⟨_,_,.exhausted step seed,by rw [source],rfl⟩
      | cons eventIndex others =>
        simp only [react,source] at reacted
        cases reacted
        exact Or.inr ⟨_,_,.accepted step eventIndex others,rfl,rfl⟩
    | cons k ks =>
      cases step with
      | wrapper =>
        cases reacted
        exact Or.inr ⟨_,_,.resetCache k ks,rfl,rfl⟩
      | workStarted =>
        cases reacted
        exact Or.inr ⟨_,_,.producerStarted k ks,rfl,rfl⟩
      | waitingTasks =>
        cases reacted
        exact Or.inr ⟨_,_,.producerTasks k ks,rfl,rfl⟩
  | scheduleReset ls step =>
    cases ls with
    | nil =>
      cases reacted
      exact Or.inl ⟨step,rfl,rfl⟩
    | cons l ls =>
      cases step with
      | wrapper =>
        cases reacted
        exact Or.inr ⟨_,_,.resetKeep l ls,rfl,rfl⟩
      | workStarted =>
        cases reacted
        exact Or.inr ⟨_,_,.filterStarted l ls,rfl,rfl⟩
      | waitingTasks =>
        cases reacted
        exact Or.inr ⟨_,_,.filterTasks l ls,rfl,rfl⟩

theorem Between.controls {sh after : LoopShared L D E} {c d : LoopFrame L D E} {frames : Multiset (Frame L D E)}
    (between : Between job sh.schedule c frames)
    (quiet : ∀ w, resetting c = some w → ∀ added, .startWork w added ∉ frames)
    (acts : Controls job sh c after (some d)) : Between job after.schedule d frames := by
  cases acts with
  | handle => exact between.keep _ rfl rfl rfl (by simp [unflagged,wrappers]) (by simp [unlisted,wrappers])
  | accepted step eventIndex source =>
    exact between.keep _ rfl rfl rfl (by simp [unflagged]) (by simp [unlisted])
  | resetCache k ks => exact between.keep _ rfl rfl rfl (by simp [unflagged]) (by simp [unlisted])
  | producerStarted k ks =>
    exact between.workStarted (quiet _ rfl) (by simp [unflagged]) (by simp [unlisted])
  | producerTasks k ks => exact between.waitingTasks (by simp [unflagged]) (by simp [unlisted])
  | resetKeep l ls => exact between.keep _ rfl rfl rfl (by simp [unflagged]) (by simp [unlisted])
  | filterStarted l ls =>
    exact between.workStarted (quiet _ rfl) (by simp [unflagged]) (by simp [unlisted])
  | filterTasks l ls => exact between.waitingTasks (by simp [unflagged]) (by simp [unlisted])

theorem History.controls {sh after : LoopShared L D E} {c : LoopFrame L D E} {d : Option (LoopFrame L D E)}
    {frames : Multiset (Frame L D E)} (history : History job sh.schedule frames)
    (quiet : ∀ w, resetting c = some w → ∀ added, .startWork w added ∉ frames)
    (acts : Controls job sh c after d) : History job after.schedule frames := by
  cases acts with
  | producerStarted k ks => exact history.workStarted (quiet _ rfl)
  | filterStarted l ls => exact history.workStarted (quiet _ rfl)
  | _ => exact history.same rfl rfl rfl rfl rfl

theorem released_controls {sh after : LoopShared L D E} {c d : LoopFrame L D E}
    (fresh : ∀ ls step, c = .scheduleReset ls step → sh.schedule.released = [])
    (acts : Controls job sh c after (some d)) (ls : List L) (step : ResetStep)
    (reset : d = .scheduleReset ls step) : after.schedule.released = [] := by
  cases acts with
  | accepted _ _ _ => rfl
  | resetKeep _ _ => exact fresh _ _ rfl
  | filterStarted _ _ => exact fresh _ _ rfl
  | filterTasks _ _ => exact fresh _ _ rfl
  | _ => cases reset

theorem controls_outside {sh after : LoopShared L D E} {c d : LoopFrame L D E}
    (acts : Controls job sh c after (some d)) (f : Frame L D E) : d ≠ .schedule f := by
  cases acts <;> simp

/-- An invariant of the frames of an event with the log, and one of what is between two events. -/
structure Rule (job : Job L D E)
    (Inside : Shared L D E → Multiset (Frame L D E) → List (Entry L D E) → Prop)
    (Outside : Option (LoopFrame L D E) → Shared L D E → List (Entry L D E) → Prop) : Prop where
  start : Outside (some (.handleNextEventAsync none)) (fresh E L D 0) []
  blank : ∀ {sh frames log}, Round job sh frames → Inside sh frames log → ∀ f ∈ frames, Blank sh f
  react : ∀ {sh f frames log r es}, Round job sh (f ::ₘ frames) → History job sh (f ::ₘ frames) →
    Inside sh (f ::ₘ frames) log → (∀ e, f ≠ .callback e) → Logs job sh f r es →
      Inside r.shared (r.frames + frames) (log ++ es)
  release : ∀ {sh e frames log}, Round job sh (.callback e ::ₘ frames) →
    Inside sh (.callback e ::ₘ frames) log →
      Outside (some (.handleNextEventAsync e)) {sh with released := sh.released ++ [e]} log
  control : ∀ {sh c after d log}, Controls job sh c after d → Outside (some c) sh.schedule log →
    Outside d after.schedule log
  begin : ∀ {sh step log}, Between job sh (.scheduleReset [] step) 0 → Round job sh {.runPaths} →
    Outside (some (.scheduleReset [] step)) sh log → Inside sh {.runPaths} []
  fatalInside : ∀ {sh frames log}, Inside sh frames log → Inside {sh with fatal := true} frames log
  fatalOutside : ∀ {sh d log}, Outside d sh log → Outside d {sh with fatal := true} log

inductive Phase (job : Job L D E)
    (Inside : Shared L D E → Multiset (Frame L D E) → List (Entry L D E) → Prop)
    (Outside : Option (LoopFrame L D E) → Shared L D E → List (Entry L D E) → Prop)
    (sh : Shared L D E) (log : List (Entry L D E)) : Multiset (LoopFrame L D E) → Prop
  | inside (frames : Multiset (Frame L D E)) (round : Round job sh frames)
      (history : History job sh frames) (holds : Inside sh frames log) :
      Phase job Inside Outside sh log (frames.map .schedule)
  | between (c : LoopFrame L D E) (frames : Multiset (Frame L D E)) (outside : ∀ f, c ≠ .schedule f)
      (between : Between job sh c frames) (fresh : ∀ ls step, c = .scheduleReset ls step → sh.released = [])
      (history : History job sh frames) (holds : Outside (some c) sh log) :
      Phase job Inside Outside sh log (c ::ₘ frames.map .schedule)
  | ended (frames : Multiset (Frame L D E)) (refused : Refused sh frames) (holds : Outside none sh log) :
      Phase job Inside Outside sh log (frames.map .schedule)

section Rule
variable {Inside : Shared L D E → Multiset (Frame L D E) → List (Entry L D E) → Prop}
  {Outside : Option (LoopFrame L D E) → Shared L D E → List (Entry L D E) → Prop}
  {sh : LoopShared L D E} {log : List (Entry L D E)}

omit [DecidableEq L] [DecidableEq D] in
theorem refused_blank {sh : Shared L D E} {frames : Multiset (Frame L D E)} (refused : Refused sh frames)
    {f : Frame L D E} (member : f ∈ frames) : Blank sh f := by
  obtain ⟨w,added,rfl,was⟩ := refused f member
  refine ⟨by simp,by simp,?_⟩
  intro v other same unstarted
  cases same
  rw [was] at unstarted
  cases unstarted

/-- A frame of the schedule is about to use a task in which nothing is left. -/
theorem Phase.blank (rule : Rule job Inside Outside) {sh : Shared L D E} {bag : Multiset (LoopFrame L D E)}
    (phase : Phase job Inside Outside sh log bag) {f : Frame L D E} (member : .schedule f ∈ bag) :
    Blank sh f := by
  cases phase with
  | inside frames round history holds =>
    obtain ⟨g,present,same⟩ := Multiset.mem_map.mp member
    cases same
    exact rule.blank round holds f present
  | between c frames outside between fresh history holds =>
    have present := (Multiset.mem_cons.mp member).resolve_left (outside f).symm
    obtain ⟨g,present,same⟩ := Multiset.mem_map.mp present
    cases same
    exact refused_blank between.refused present
  | ended frames refused holds =>
    obtain ⟨g,present,same⟩ := Multiset.mem_map.mp member
    cases same
    exact refused_blank refused present

/-- In every phase OpenMP does what TBB does. -/
theorem Phase.reactIn_same (rule : Rule job Inside Outside) (framework : Framework)
    {bag : Multiset (LoopFrame L D E)} (phase : Phase job Inside Outside sh.schedule log bag)
    {g : LoopFrame L D E} (member : g ∈ bag) (seed : Nat) :
    reactIn framework job sh g seed = Loop.react job sh g seed := by
  cases g with
  | schedule f => simp only [reactIn,Loop.react,reactIn_blank framework job (phase.blank rule member)]
  | _ => rfl

omit [DecidableEq L] [DecidableEq D] in
theorem Refused.drop {sh : Shared L D E} {f : Frame L D E} {frames : Multiset (Frame L D E)}
    (refused : Refused sh (f ::ₘ frames)) : Refused sh frames :=
  fun g member => refused g (Multiset.mem_cons_of_mem member)

/-- A refused call adds nothing to the log. -/
theorem refused_silent {sh : Shared L D E} {f : Frame L D E} {frames : Multiset (Frame L D E)}
    (refused : Refused sh (f ::ₘ frames)) (seed : Nat) : entries job sh f seed = [] := by
  obtain ⟨w,added,rfl,_⟩ := refused f (Multiset.mem_cons_self f frames)
  rfl

theorem Phase.schedule_react (rule : Rule job Inside Outside) {f : Frame L D E}
    {bag rest : Multiset (LoopFrame L D E)} (phase : Phase job Inside Outside sh.schedule log bag)
    (split : bag = .schedule f ::ₘ rest) {seed : Nat} {r : Reaction (LoopShared L D E) (LoopFrame L D E)}
    (reacted : Loop.react job sh (.schedule f) seed = some r) :
    Phase job Inside Outside r.shared.schedule (logged job sh log seed (.schedule f)) (r.frames + rest) := by
  obtain ⟨inner,made,after,frames⟩ := react_schedule reacted
  rw [after,frames,logged]
  cases phase with
  | inside all round history holds =>
    obtain ⟨others,rfl,rfl⟩ := schedule_cons split
    by_cases released : ∃ e, f = .callback e
    · obtain ⟨e,rfl⟩ := released
      cases made
      simpa [recursiveTask,entries] using Phase.between (.handleNextEventAsync e) others (by simp)
        (Round.between round history) (by simp) (history.drop.same rfl rfl rfl rfl rfl)
        (rule.release round holds)
    · have none : recursiveTask f = [] := by
        cases f <;> simp_all [recursiveTask]
      rw [none,Multiset.coe_nil,add_zero,← Multiset.map_add]
      have reacts := react_reacts made
      exact Phase.inside _ (round.react reacts) (history.react round reacts)
        (rule.react round history holds (fun e same => released ⟨e,same⟩) (react_logs made))
  | between c all outside between fresh history holds =>
    have member : .schedule f ∈ all.map LoopFrame.schedule := by
      have inside : .schedule f ∈ c ::ₘ all.map LoopFrame.schedule := by simp [split]
      exact (Multiset.mem_cons.mp inside).resolve_left (outside f).symm
    obtain ⟨g,inside,same⟩ := Multiset.mem_map.mp member
    cases same
    obtain ⟨others,rfl⟩ := Multiset.exists_cons_of_mem inside
    obtain ⟨same,none⟩ := refused_react between.refused made
    rw [Multiset.map_cons,Multiset.cons_swap] at split
    obtain rfl := (Multiset.cons_inj_right _).mp split
    rw [none,same,refused_silent between.refused,List.append_nil]
    simpa using Phase.between c others outside
      ⟨between.refused.drop,between.unheld,between.started,between.closed⟩ fresh history.drop holds
  | ended all refused holds =>
    obtain ⟨others,rfl,rfl⟩ := schedule_cons split
    obtain ⟨same,none⟩ := refused_react refused made
    rw [none,same,refused_silent refused,List.append_nil]
    simpa using Phase.ended others refused.drop holds

theorem Phase.control_react (rule : Rule job Inside Outside) {c : LoopFrame L D E}
    (outside : ∀ f, c ≠ .schedule f) {frames : Multiset (Frame L D E)}
    (between : Between job sh.schedule c frames)
    (fresh : ∀ ls step, c = .scheduleReset ls step → sh.schedule.released = [])
    (history : History job sh.schedule frames) (holds : Outside (some c) sh.schedule log)
    (quiet : ∀ w, resetting c = some w → ∀ added, .startWork w added ∉ frames) {seed : Nat}
    {r : Reaction (LoopShared L D E) (LoopFrame L D E)} (reacted : Loop.react job sh c seed = some r) :
    Phase job Inside Outside r.shared.schedule (logged job sh log seed c) (r.frames + frames.map .schedule) := by
  rcases react_controls outside reacted with ⟨step,rfl,rfl⟩ | ⟨after,d,acts,shared,placed⟩
  · obtain ⟨rfl,round⟩ := between.round (fresh _ _ rfl)
    have begun : History job sh.schedule {.runPaths} :=
      ⟨history.starts,by simp,history.started,history.ran,history.requests⟩
    exact Phase.inside {.runPaths} round begun (rule.begin between round holds)
  · have kept : logged job sh log seed c = log := by
      cases acts <;> rfl
    rw [shared,placed,kept]
    cases d with
    | none =>
      have refused : Refused after.schedule frames := by
        cases acts <;> exact between.refused
      simpa using Phase.ended frames refused (rule.control acts holds)
    | some d =>
      exact Phase.between d frames (controls_outside acts) (between.controls quiet acts)
        (released_controls fresh acts) (history.controls quiet acts) (rule.control acts holds)

theorem Phase.react (rule : Rule job Inside Outside) {g : LoopFrame L D E} {bag rest : Multiset (LoopFrame L D E)}
    (phase : Phase job Inside Outside sh.schedule log bag) (split : bag = g ::ₘ rest)
    (quiet : ∀ w, resetting g = some w → ∀ added, .schedule (.startWork w added) ∉ bag) {seed : Nat}
    {r : Reaction (LoopShared L D E) (LoopFrame L D E)} (reacted : Loop.react job sh g seed = some r) :
    Phase job Inside Outside r.shared.schedule (logged job sh log seed g) (r.frames + rest) := by
  by_cases inside : ∃ f, g = .schedule f
  · obtain ⟨f,rfl⟩ := inside
    exact phase.schedule_react rule split reacted
  · have outside : ∀ f, g ≠ .schedule f := fun f same => inside ⟨f,same⟩
    have alone (frames : Multiset (Frame L D E)) : g ∉ frames.map LoopFrame.schedule := by
      intro member
      obtain ⟨f,_,same⟩ := Multiset.mem_map.mp member
      exact outside f same.symm
    have present : g ∈ bag := by simp [split]
    cases phase with
    | inside frames round history holds => exact absurd present (alone frames)
    | ended frames refused holds => exact absurd present (alone frames)
    | between c frames control between fresh history holds =>
      obtain rfl : g = c := (Multiset.mem_cons.mp present).resolve_right (alone frames)
      obtain rfl := (Multiset.cons_inj_right _).mp split
      refine Phase.control_react rule outside between fresh history holds (fun w resets added member => ?_) reacted
      exact quiet w resets added (Multiset.mem_cons_of_mem (Multiset.mem_map_of_mem _ member))

theorem Phase.fatal (rule : Rule job Inside Outside) {sh : Shared L D E} {bag : Multiset (LoopFrame L D E)}
    (phase : Phase job Inside Outside sh log bag) : Phase job Inside Outside {sh with fatal := true} log bag := by
  cases phase with
  | inside frames round history holds =>
    exact Phase.inside frames round.otherStreamFails (history.same rfl rfl rfl rfl rfl)
      (rule.fatalInside holds)
  | between c frames control between fresh history holds =>
    exact Phase.between c frames control
      (between.keep {sh with fatal := true} rfl rfl rfl (List.Subset.refl _) (List.Subset.refl _)) fresh
      (history.same rfl rfl rfl rfl rfl) (rule.fatalOutside holds)
  | ended frames refused holds => exact Phase.ended frames refused (rule.fatalOutside holds)

/-- One step of the stream with its log, in either framework. -/
theorem Rule.step (rule : Rule job Inside Outside) {framework : Framework}
    {s t : State L D E × List (Entry L D E)} {a : Action}
    (phase : Phase job Inside Outside s.1.shared.schedule s.2 s.1.bag) (quiet : Quiet s.1 a)
    (taken : nextLogged framework job s a = some t) :
    Phase job Inside Outside t.1.shared.schedule t.2 t.1.bag := by
  obtain ⟨moved,recorded⟩ := recording_taken taken
  rw [recorded]
  cases a with
  | act thread seed =>
    obtain ⟨g,r,rest,reacted,shared,before,after,top⟩ := Pool.step_bag moved
    have member : g ∈ s.1.bag := by simp [before]
    rw [phase.reactIn_same rule framework member] at reacted
    rw [shared,after,record,top,Option.elim_some]
    refine phase.react rule before (fun w resets => calling_absent (quiet w ?_)) reacted
    simp [top,resets]
  | otherStreamFails =>
    rw [← Option.some.inj moved]
    exact phase.fatal rule

theorem Rule.initial (rule : Rule job Inside Outside) (source : List Nat) :
    Phase job Inside Outside (initial L D E source).shared.schedule [] (initial L D E source).bag := by
  refine Phase.between (.handleNextEventAsync none) 0 (by simp) ⟨?_,?_,?_,?_⟩ (by simp) ?_ rule.start
  · simp [Refused]
  · simp [Loop.initial,fresh]
  · simp [Loop.initial,fresh]
  · simp [Loop.initial,fresh]
  · constructor <;> simp [Loop.initial,fresh]

/-- What the rule gives for every run. -/
theorem Rule.phase (rule : Rule job Inside Outside) {framework : Framework} {source : List Nat}
    {s : State L D E} {log : List (Entry L D E)}
    (run : Reaches (nextLogged framework job) (fun s a => Quiet s.1 a) (Loop.initial L D E source,[]) (s,log)) :
    Phase job Inside Outside s.shared.schedule log s.bag := by
  have preserved (s : State L D E × List (Entry L D E)) (a : Action) (t : State L D E × List (Entry L D E))
      (phase : Phase job Inside Outside s.1.shared.schedule s.2 s.1.bag) (quiet : Quiet s.1 a)
      (taken : nextLogged framework job s a = some t) :
      Phase job Inside Outside t.1.shared.schedule t.2 t.1.bag := rule.step phase quiet taken
  exact Reaches.invariant preserved run (rule.initial source)

end Rule

end Loop
end ToyMtFramework.Schedule
