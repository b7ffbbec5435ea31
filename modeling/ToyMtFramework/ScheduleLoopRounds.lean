import ToyMtFramework.ScheduleLoop

/-! When no module is reset under a call of `doWorkAsync`, each start of a module belongs to
the event it happens in. Between two events all that is left of the first are calls
whose exchange is going to be refused. -/
namespace ToyMtFramework.Schedule.Loop
open Activities Transition

variable {L D E : Type} [DecidableEq L] [DecidableEq D] {job : Job L D E}

def wrappers (job : Job L D E) : List (Wrapper L D) :=
  (lookupMap job).map (fun k => .producer k.1 k.2) ++ (filterLabels job).map .filter

theorem wrappers_known {w : Wrapper L D} (known : (job.module w).isSome = true) : w ∈ wrappers job := by
  obtain ⟨m,found⟩ := Option.isSome_iff_exists.mp known
  cases w with
  | filter label =>
    have listed : m.label = label := by simpa using List.find?_some found
    have member : m ∈ job.filters := List.mem_of_find?_eq_some found
    refine List.mem_append_right _ (List.mem_map_of_mem (List.mem_dedup.mpr ?_))
    exact listed ▸ List.mem_map_of_mem member
  | producer label product =>
    have listed : m.label = label ∧ product ∈ m.products := by simpa using List.find?_some found
    have member : m ∈ job.producers := List.mem_of_find?_eq_some found
    refine List.mem_append_left _ (List.mem_map.mpr ⟨(label,product),List.mem_dedup.mpr ?_,rfl⟩)
    exact List.mem_flatMap.mpr ⟨m,member,List.mem_map.mpr ⟨product,listed.2,by rw [listed.1]⟩⟩

def unflagged (job : Job L D E) : LoopFrame L D E → List (Wrapper L D)
  | .schedule _ => []
  | .handleNextEventAsync _ => wrappers job
  | .eventReset ks step =>
    (if step = .waitingTasks then ks.tail else ks).map (fun k => .producer k.1 k.2) ++
      (filterLabels job).map .filter
  | .scheduleReset ls step => (if step = .waitingTasks then ls.tail else ls).map .filter

def unlisted (job : Job L D E) : LoopFrame L D E → List (Wrapper L D)
  | .schedule _ => []
  | .handleNextEventAsync _ => wrappers job
  | .eventReset ks _ => ks.map (fun k => .producer k.1 k.2) ++ (filterLabels job).map .filter
  | .scheduleReset ls _ => ls.map .filter

structure History (job : Job L D E) (sh : Shared L D E) (frames : Multiset (Frame L D E)) : Prop where
  starts : ∀ start ∈ sh.starts, start.added = start.exchanged
  calls : ∀ w added, .startWork w added ∈ frames → added = sh.resets w ∧
    (job.module w).isSome = true ∧ ∃ t, ⟨w,added,t⟩ ∈ sh.requests
  started : ∀ w, sh.workStarted w = true → (job.module w).isSome = true ∧
    ∃ t, ⟨w,sh.resets w,t⟩ ∈ sh.requests
  ran : ∀ run ∈ sh.ran, ∃ t, ⟨run.wrapper,run.round,t⟩ ∈ sh.requests
  requests : ∀ request ∈ sh.requests, WaitsFor job request.wrapper request.task

def Refused (sh : Shared L D E) (frames : Multiset (Frame L D E)) : Prop :=
  ∀ f ∈ frames, ∃ w added, f = .startWork w added ∧ sh.workStarted w = true

structure Between (job : Job L D E) (sh : Shared L D E) (c : LoopFrame L D E)
    (frames : Multiset (Frame L D E)) : Prop where
  refused : Refused sh frames
  unheld : ∀ t, sh.refCount t = 0
  started : ∀ w, sh.workStarted w = true → w ∈ unflagged job c
  closed : ∀ w, (sh.list (.waitingTasks w)).waiting = false → w ∈ unlisted job c

/-- Where the stream is: in an event, between two events, or at its end. -/
inductive Stage (job : Job L D E) (sh : Shared L D E) : Multiset (LoopFrame L D E) → Prop
  | processing (frames : Multiset (Frame L D E)) (round : Round job sh frames)
      (history : History job sh frames) : Stage job sh (frames.map .schedule)
  | between (c : LoopFrame L D E) (frames : Multiset (Frame L D E)) (outside : ∀ f, c ≠ .schedule f)
      (between : Between job sh c frames) (fresh : ∀ ls step, c = .scheduleReset ls step → sh.released = [])
      (history : History job sh frames) : Stage job sh (c ::ₘ frames.map .schedule)
  | ended (frames : Multiset (Frame L D E)) (refused : Refused sh frames)
      (history : History job sh frames) : Stage job sh (frames.map .schedule)

section Steps
variable {sh : Shared L D E} {f : Frame L D E} {r : Reaction (Shared L D E) (Frame L D E)}
  {frames : Multiset (Frame L D E)} {e : Option E}

theorem History.keep (history : History job sh (f ::ₘ frames)) {after : Shared L D E}
    (starts : after.starts = sh.starts) (resets : after.resets = sh.resets)
    (requests : after.requests = sh.requests) (started : after.workStarted = sh.workStarted)
    (ran : after.ran = sh.ran) {new : Multiset (Frame L D E)}
    (none : ∀ w added, .startWork w added ∉ new) : History job after (new + frames) := by
  refine ⟨?_,?_,?_,?_,?_⟩
  · rw [starts]
    exact history.starts
  · intro w added member
    rw [resets,requests]
    exact history.calls w added (Multiset.mem_cons_of_mem
      ((Multiset.mem_add.mp member).resolve_left (none w added)))
  · rw [started,resets,requests]
    exact history.started
  · rw [ran,requests]
    exact history.ran
  · rw [requests]
    exact history.requests

/-- A call of `doWorkAsync` has added its task. -/
theorem History.request (history : History job sh (f ::ₘ frames)) {w : Wrapper L D} {t : TaskId L D}
    (known : (job.module w).isSome = true) (source : WaitsFor job w t) {new : Multiset (Frame L D E)}
    (only : ∀ v added, .startWork v added ∈ new → v = w ∧ added = sh.resets w) :
    History job (sh.request w t) (new + frames) := by
  have grown {q : Request L D} (member : q ∈ sh.requests) : q ∈ (sh.request w t).requests :=
    List.mem_append_left _ member
  have made : ⟨w,sh.resets w,t⟩ ∈ (sh.request w t).requests :=
    List.mem_append_right _ (List.mem_singleton.mpr rfl)
  refine ⟨history.starts,?_,?_,?_,?_⟩
  · intro v added member
    rcases Multiset.mem_add.mp member with member | member
    · obtain ⟨rfl,rfl⟩ := only v added member
      exact ⟨rfl,known,t,made⟩
    · obtain ⟨same,known,u,asked⟩ := history.calls v added (Multiset.mem_cons_of_mem member)
      exact ⟨same,known,u,grown asked⟩
  · intro v was
    obtain ⟨known,u,asked⟩ := history.started v was
    exact ⟨known,u,grown asked⟩
  · intro run member
    obtain ⟨u,asked⟩ := history.ran run member
    exact ⟨u,grown asked⟩
  · intro q member
    rcases List.mem_append.mp member with member | new
    · exact history.requests q member
    · rw [List.mem_singleton.mp new]
      exact source

theorem History.react (history : History job sh (f ::ₘ frames)) (round : Round job sh (f ::ₘ frames))
    (reacts : Reacts job sh f r) : History job r.shared (r.frames + frames) := by
  have source := round.sourced f (Multiset.mem_cons_self f frames)
  cases reacts with
  | add w t known waiting =>
    exact history.request known source (fun v added member => by simpa using member)
  | addLate w t known waiting =>
    exact history.request known source (fun v added member => by simpa using member)
  | startWork w added unstarted =>
    obtain ⟨current,known,t,asked⟩ := history.calls w added (Multiset.mem_cons_self _ _)
    refine ⟨?_,?_,?_,history.ran,history.requests⟩
    · intro start member
      rcases List.mem_append.mp member with member | new
      · exact history.starts start member
      · rw [List.mem_singleton.mp new]
        exact current
    · intro v other member
      have old : .startWork v other ∈ frames := by simpa using member
      exact history.calls v other (Multiset.mem_cons_of_mem old)
    · intro v was
      by_cases same : v = w
      · subst v
        exact ⟨known,t,current ▸ asked⟩
      · exact history.started v (by simpa [Shared.hold,Shared.start,same] using was)
  | body w values seed outcome performed =>
    have module := round.counts.modules w
    simp only [weigh_cons,working,if_true] at module
    have was : sh.workStarted w = true := by
      by_contra unstarted
      rw [if_neg unstarted] at module
      omega
    refine ⟨history.starts,?_,history.started,?_,history.requests⟩
    · intro v other member
      have old : .startWork v other ∈ frames := by simpa using member
      exact history.calls v other (Multiset.mem_cons_of_mem old)
    · intro run member
      rcases List.mem_append.mp member with member | new
      · exact history.ran run member
      · rw [List.mem_singleton.mp new]
        exact (history.started w was).2
  | _ =>
    apply history.keep
    case none =>
      intro w added member
      simp at member
    all_goals rfl

/-- Once the callback is released, what is left of an event are refused calls. -/
theorem Round.between (round : Round job sh (.callback e ::ₘ frames))
    (history : History job sh (.callback e ::ₘ frames)) :
    Between job {sh with released := sh.released ++ [e]} (.handleNextEventAsync e) frames := by
  have schedule := round.counts.schedule
  simp only [weigh_cons,ending] at schedule
  have alone (f : Frame L D E) (member : f ∈ frames) : ending f = 0 :=
    weigh_eq_zero (by omega) member
  have quiet : Over sh (.callback e ::ₘ frames) := by
    refine ⟨fun member => ?_,by omega⟩
    have other : .runPaths ∈ frames := by simpa using member
    simpa [ending] using alone _ other
  have started (w : Wrapper L D) (added : Nat) (member : .startWork w added ∈ frames) :
      sh.workStarted w = true := by
    by_contra unstarted
    have module := round.counts.modules w
    rw [if_neg unstarted] at module
    have waiters := round.counts.waiters w (settled_eq_zero.mp (by omega))
    have calling : 0 < weigh (starting w) (.callback e ::ₘ frames) :=
      weigh_pos (Multiset.mem_cons_of_mem member) (by simp [starting])
    obtain ⟨t,waits⟩ := waits_member (.waitingTasks w)
      (by omega : 0 < weigh _ (.callback e ::ₘ frames))
    have held := round.counts.owned waits (t := t) (by simp [owns])
    have unheld := round.task_over quiet t
    omega
  refine ⟨?_,fun t => round.task_over quiet t,fun w was => wrappers_known (history.started w was).1,?_⟩
  · intro f member
    rcases round.frames_over quiet (Multiset.mem_cons_of_mem member) with ⟨w,added,rfl⟩ | rfl | ⟨x,rfl⟩
    · exact ⟨w,added,rfl,started w added member⟩
    · simpa [ending] using alone _ member
    · simpa [ending] using alone _ member
  · intro w closed
    have module := round.counts.modules w
    rw [Shared.settled,if_neg (by simpa using closed)] at module
    by_cases was : sh.workStarted w = true
    · exact wrappers_known (history.started w was).1
    · rw [if_neg was] at module
      omega

theorem Between.keep {c d : LoopFrame L D E} (between : Between job sh c frames) (after : Shared L D E)
    (started : after.workStarted = sh.workStarted) (refCount : after.refCount = sh.refCount)
    (list : after.list = sh.list) (flags : unflagged job c ⊆ unflagged job d)
    (lists : unlisted job c ⊆ unlisted job d) : Between job after d frames := by
  refine ⟨?_,?_,?_,?_⟩
  · unfold Refused
    rw [started]
    exact between.refused
  · rw [refCount]
    exact between.unheld
  · rw [started]
    exact fun w was => flags (between.started w was)
  · rw [list]
    exact fun w closed => lists (between.closed w closed)

theorem Between.workStarted {c d : LoopFrame L D E} {w : Wrapper L D}
    (between : Between job sh c frames) (quiet : ∀ added, .startWork w added ∉ frames)
    (flags : unflagged job c ⊆ w :: unflagged job d) (lists : unlisted job c ⊆ unlisted job d) :
    Between job (resetWorkStarted sh w) d frames := by
  refine ⟨?_,between.unheld,?_,fun v closed => lists (between.closed v closed)⟩
  · intro f member
    obtain ⟨v,added,rfl,was⟩ := between.refused f member
    have other : v ≠ w := by
      rintro rfl
      exact quiet added member
    exact ⟨v,added,rfl,by simpa [resetWorkStarted,other] using was⟩
  · intro v was
    have other : v ≠ w := by
      rintro rfl
      simp [resetWorkStarted] at was
    exact (List.mem_cons.mp (flags (between.started v
      (by simpa [resetWorkStarted,other] using was)))).resolve_left other

theorem Between.waitingTasks {c d : LoopFrame L D E} {w : Wrapper L D}
    (between : Between job sh c frames) (flags : unflagged job c ⊆ unflagged job d)
    (lists : unlisted job c ⊆ w :: unlisted job d) :
    Between job (resetWaitingTasks sh w) d frames := by
  refine ⟨between.refused,between.unheld,fun v was => flags (between.started v was),?_⟩
  intro v closed
  have other : v ≠ w := by
    rintro rfl
    simp [resetWaitingTasks,Shared.setList] at closed
  exact (List.mem_cons.mp (lists (between.closed v
    (by simpa [resetWaitingTasks,Shared.setList,other] using closed)))).resolve_left other

theorem History.workStarted {w : Wrapper L D} (history : History job sh frames)
    (quiet : ∀ added, .startWork w added ∉ frames) : History job (resetWorkStarted sh w) frames := by
  refine ⟨history.starts,?_,?_,history.ran,history.requests⟩
  · intro v added member
    have other : v ≠ w := by
      rintro rfl
      exact quiet added member
    simpa [resetWorkStarted,other] using history.calls v added member
  · intro v was
    have other : v ≠ w := by
      rintro rfl
      simp [resetWorkStarted] at was
    simpa [resetWorkStarted,other] using history.started v
      (by simpa [resetWorkStarted,other] using was)

/-- All is reset: a new round starts from nothing but `runPaths`. -/
theorem Between.round {step : ResetStep} (between : Between job sh (.scheduleReset [] step) frames)
    (fresh : sh.released = []) : frames = 0 ∧ Round job sh {.runPaths} := by
  have unstarted (w : Wrapper L D) : sh.workStarted w = false := by
    by_contra was
    have left := between.started w (by simpa using was)
    simp [unflagged] at left
  have waiting (w : Wrapper L D) : (sh.list (.waitingTasks w)).waiting = true := by
    by_contra closed
    have left := between.closed w (by simpa using closed)
    simp [unlisted] at left
  refine ⟨Multiset.eq_zero_of_forall_notMem fun f member => ?_,?_,?_,?_⟩
  · obtain ⟨w,added,rfl,was⟩ := between.refused f member
    rw [unstarted] at was
    cases was
  · constructor <;>
      simp [between.unheld,unstarted,waiting,fresh,owns,working,starting,waits,pending,acting,ending,
        Shared.settled,weigh]
  · simp [Sourced]
  · simp [Ranked,unstarted]

end Steps

omit [DecidableEq L] [DecidableEq D] in
theorem schedule_cons {frames : Multiset (Frame L D E)} {f : Frame L D E}
    {rest : Multiset (LoopFrame L D E)} (equal : frames.map .schedule = .schedule f ::ₘ rest) :
    ∃ others, frames = f ::ₘ others ∧ rest = others.map .schedule := by
  have member : .schedule f ∈ frames.map LoopFrame.schedule := by simp [equal]
  obtain ⟨g,inside,same⟩ := Multiset.mem_map.mp member
  obtain rfl : g = f := by injection same
  obtain ⟨others,rfl⟩ := Multiset.exists_cons_of_mem inside
  refine ⟨others,rfl,?_⟩
  rw [Multiset.map_cons] at equal
  exact ((Multiset.cons_inj_right _).mp equal).symm

theorem refused_react {sh : Shared L D E} {f : Frame L D E} {others : Multiset (Frame L D E)}
    (refused : Refused sh (f ::ₘ others)) {seed : Nat} {r : Reaction (Shared L D E) (Frame L D E)}
    (reacted : Schedule.react job sh f seed = some r) : r = ⟨sh,[],[]⟩ ∧ recursiveTask f = [] := by
  obtain ⟨w,added,rfl,was⟩ := refused f (Multiset.mem_cons_self f others)
  have reacts := react_reacts reacted
  cases reacts with
  | startRefused _ _ _ => exact ⟨rfl,rfl⟩
  | startWork _ _ unstarted =>
    rw [was] at unstarted
    cases unstarted

theorem History.same {sh after : Shared L D E} {frames : Multiset (Frame L D E)}
    (history : History job sh frames) (starts : after.starts = sh.starts)
    (resets : after.resets = sh.resets) (requests : after.requests = sh.requests)
    (started : after.workStarted = sh.workStarted) (ran : after.ran = sh.ran) :
    History job after frames := by
  constructor
  · rw [starts]
    exact history.starts
  · rw [resets,requests]
    exact history.calls
  · rw [started,resets,requests]
    exact history.started
  · rw [ran,requests]
    exact history.ran
  · rw [requests]
    exact history.requests

theorem History.drop {sh : Shared L D E} {f : Frame L D E} {others : Multiset (Frame L D E)}
    (history : History job sh (f ::ₘ others)) : History job sh others :=
  ⟨history.starts,fun w added member => history.calls w added (Multiset.mem_cons_of_mem member),
    history.started,history.ran,history.requests⟩

/-- A frame of the schedule acts. -/
theorem Stage.schedule_react {sh : LoopShared L D E} {f : Frame L D E}
    {bag rest : Multiset (LoopFrame L D E)} (stage : Stage job sh.schedule bag)
    (split : bag = .schedule f ::ₘ rest) {seed : Nat} {r : Reaction (LoopShared L D E) (LoopFrame L D E)}
    (reacted : Loop.react job sh (.schedule f) seed = some r) :
    Stage job r.shared.schedule (r.frames + rest) := by
  obtain ⟨inner,made,after,frames⟩ := react_schedule reacted
  rw [after,frames]
  cases stage with
  | processing all round history =>
    obtain ⟨others,rfl,rfl⟩ := schedule_cons split
    have reacts := react_reacts made
    by_cases released : ∃ e, f = .callback e
    · obtain ⟨e,rfl⟩ := released
      cases reacts with
      | callback e =>
        simpa [recursiveTask] using Stage.between (.handleNextEventAsync e) others (by simp)
          (Round.between round history) (by simp) (history.drop.same rfl rfl rfl rfl rfl)
    · have none : recursiveTask f = [] := by
        cases f <;> simp_all [recursiveTask]
      rw [none,Multiset.coe_nil,add_zero,← Multiset.map_add]
      exact Stage.processing _ (round.react reacts) (history.react round reacts)
  | between c all outside between fresh history =>
    have member : .schedule f ∈ all.map LoopFrame.schedule := by
      have inside : .schedule f ∈ c ::ₘ all.map LoopFrame.schedule := by simp [split]
      exact (Multiset.mem_cons.mp inside).resolve_left (outside f).symm
    obtain ⟨g,inside,same⟩ := Multiset.mem_map.mp member
    obtain rfl : g = f := by injection same
    obtain ⟨others,rfl⟩ := Multiset.exists_cons_of_mem inside
    obtain ⟨rfl,none⟩ := refused_react between.refused made
    rw [Multiset.map_cons,Multiset.cons_swap] at split
    obtain rfl := (Multiset.cons_inj_right _).mp split
    rw [none]
    simpa using Stage.between c others outside
      ⟨fun h member => between.refused h (Multiset.mem_cons_of_mem member),between.unheld,
        between.started,between.closed⟩ fresh history.drop
  | ended all refused history =>
    obtain ⟨others,rfl,rfl⟩ := schedule_cons split
    obtain ⟨rfl,none⟩ := refused_react refused made
    rw [none]
    simpa using Stage.ended others (fun h member => refused h (Multiset.mem_cons_of_mem member))
      history.drop

/-- The frame that resets the schedule for its next event acts. -/
theorem Stage.control_react {sh : LoopShared L D E} {c : LoopFrame L D E}
    (outside : ∀ f, c ≠ .schedule f) {frames : Multiset (Frame L D E)}
    (between : Between job sh.schedule c frames)
    (fresh : ∀ ls step, c = .scheduleReset ls step → sh.schedule.released = [])
    (history : History job sh.schedule frames)
    (quiet : ∀ w, resetting c = some w → ∀ added, .startWork w added ∉ frames) {seed : Nat}
    {r : Reaction (LoopShared L D E) (LoopFrame L D E)} (reacted : Loop.react job sh c seed = some r) :
    Stage job r.shared.schedule (r.frames + frames.map .schedule) := by
  cases c with
  | schedule f => exact absurd rfl (outside f)
  | handleNextEventAsync e =>
    cases e with
    | some x =>
      cases reacted
      simpa using Stage.ended frames between.refused history
    | none =>
      cases reacted
      simpa using Stage.between (.eventReset (lookupMap job) .wrapper) frames (by simp)
        (between.keep _ rfl rfl rfl (by simp [unflagged,wrappers]) (by simp [unlisted,wrappers]))
        (by simp) history
  | eventReset ks step =>
    cases ks with
    | nil =>
      cases source : sh.source with
      | nil =>
        simp only [react,source] at reacted
        cases reacted
        have refused : Refused (refuseEvent sh.schedule seed) frames := between.refused
        simpa using Stage.ended frames refused (history.same rfl rfl rfl rfl rfl)
      | cons eventIndex others =>
        simp only [react,source] at reacted
        cases reacted
        simpa using Stage.between (.scheduleReset (filterLabels job) .wrapper) frames (by simp)
          (between.keep (setEventInfo sh.schedule eventIndex) rfl rfl rfl
            (by simp [unflagged]) (by simp [unlisted])) (fun _ _ _ => rfl) (history.same rfl rfl rfl rfl rfl)
    | cons k ks =>
      cases step with
      | wrapper =>
        cases reacted
        simpa using Stage.between (.eventReset (k :: ks) .workStarted) frames (by simp)
          (between.keep (resetCache sh.schedule k.1 k.2) rfl rfl rfl (by simp [unflagged]) (by simp [unlisted])) (by simp)
          (history.same rfl rfl rfl rfl rfl)
      | workStarted =>
        cases reacted
        simpa using Stage.between (.eventReset (k :: ks) .waitingTasks) frames (by simp)
          (between.workStarted (quiet _ rfl) (by simp [unflagged]) (by simp [unlisted])) (by simp)
          (history.workStarted (quiet _ rfl))
      | waitingTasks =>
        cases reacted
        simpa using Stage.between (.eventReset ks .wrapper) frames (by simp)
          (between.waitingTasks (by simp [unflagged]) (by simp [unlisted])) (by simp)
          (history.same rfl rfl rfl rfl rfl)
  | scheduleReset ls step =>
    have unreleased := fresh ls step rfl
    cases ls with
    | nil =>
      cases reacted
      obtain ⟨rfl,round⟩ := between.round unreleased
      refine Stage.processing {.runPaths} round ⟨history.starts,?_,history.started,history.ran,history.requests⟩
      simp
    | cons l ls =>
      cases step with
      | wrapper =>
        cases reacted
        simpa using Stage.between (.scheduleReset (l :: ls) .workStarted) frames (by simp)
          (between.keep (resetKeep sh.schedule l) rfl rfl rfl (by simp [unflagged]) (by simp [unlisted]))
          (fun _ _ _ => unreleased) (history.same rfl rfl rfl rfl rfl)
      | workStarted =>
        cases reacted
        simpa using Stage.between (.scheduleReset (l :: ls) .waitingTasks) frames (by simp)
          (between.workStarted (quiet _ rfl) (by simp [unflagged]) (by simp [unlisted]))
          (fun _ _ _ => unreleased) (history.workStarted (quiet _ rfl))
      | waitingTasks =>
        cases reacted
        simpa using Stage.between (.scheduleReset ls .wrapper) frames (by simp)
          (between.waitingTasks (by simp [unflagged]) (by simp [unlisted]))
          (fun _ _ _ => unreleased) (history.same rfl rfl rfl rfl rfl)

theorem initial_stage (job : Job L D E) (source : List Nat) :
    Stage job (initial L D E source).shared.schedule (initial L D E source).bag := by
  refine Stage.between (.handleNextEventAsync none) 0 (by simp) ⟨?_,?_,?_,?_⟩ (by simp) ?_
  · simp [Refused]
  · simp [initial,fresh]
  · simp [initial,fresh]
  · simp [initial,fresh]
  · constructor <;> simp [initial,fresh]

theorem calling_absent {w : Wrapper L D} {bag : Multiset (LoopFrame L D E)}
    (quiet : weigh (calling w) bag = 0) (added : Nat) : .schedule (.startWork w added) ∉ bag := by
  intro member
  simpa [calling] using weigh_eq_zero quiet member

/-- Whichever frame acts, the stream stays in an event, between two events, or at its end. -/
theorem Stage.react {sh : LoopShared L D E} {g : LoopFrame L D E} {bag rest : Multiset (LoopFrame L D E)}
    (stage : Stage job sh.schedule bag) (split : bag = g ::ₘ rest)
    (quiet : ∀ w, resetting g = some w → ∀ added, .schedule (.startWork w added) ∉ bag) {seed : Nat}
    {r : Reaction (LoopShared L D E) (LoopFrame L D E)} (reacted : Loop.react job sh g seed = some r) :
    Stage job r.shared.schedule (r.frames + rest) := by
  by_cases inside : ∃ f, g = .schedule f
  · obtain ⟨f,rfl⟩ := inside
    exact stage.schedule_react split reacted
  · have outside : ∀ f, g ≠ .schedule f := fun f same => inside ⟨f,same⟩
    have alone (frames : Multiset (Frame L D E)) : g ∉ frames.map LoopFrame.schedule := by
      intro member
      obtain ⟨f,_,same⟩ := Multiset.mem_map.mp member
      exact outside f same.symm
    have present : g ∈ bag := by simp [split]
    cases stage with
    | processing frames round history => exact absurd present (alone frames)
    | ended frames refused history => exact absurd present (alone frames)
    | between c frames control between fresh history =>
      obtain rfl : g = c := (Multiset.mem_cons.mp present).resolve_right (alone frames)
      obtain rfl := (Multiset.cons_inj_right _).mp split
      refine Stage.control_react outside between fresh history (fun w resets added member => ?_) reacted
      exact quiet w resets added (Multiset.mem_cons_of_mem (Multiset.mem_map_of_mem _ member))

theorem Stage.fatal {sh : Shared L D E} {bag : Multiset (LoopFrame L D E)} (stage : Stage job sh bag) :
    Stage job {sh with fatal := true} bag := by
  cases stage with
  | processing frames round history =>
    exact Stage.processing frames round.otherStreamFails (history.same rfl rfl rfl rfl rfl)
  | between c frames control between fresh history =>
    exact Stage.between c frames control
      (between.keep {sh with fatal := true} rfl rfl rfl (List.Subset.refl _) (List.Subset.refl _)) fresh
      (history.same rfl rfl rfl rfl rfl)
  | ended frames refused history => exact Stage.ended frames refused (history.same rfl rfl rfl rfl rfl)

theorem next_stage {s t : State L D E} {a : Action} (stage : Stage job s.shared.schedule s.bag)
    (quiet : Quiet s a) (taken : next job s a = some t) :
    Stage job t.shared.schedule t.bag := by
  cases a with
  | act thread seed =>
    obtain ⟨g,r,rest,reacted,shared,before,after,top⟩ := Pool.step_bag taken
    rw [shared,after]
    refine stage.react before (fun w resets => calling_absent (quiet w ?_)) reacted
    simp [top,resets]
  | otherStreamFails =>
    obtain rfl := Option.some.inj taken
    exact stage.fatal

theorem Stage.history {sh : Shared L D E} {bag : Multiset (LoopFrame L D E)}
    (stage : Stage job sh bag) : ∃ frames, History job sh frames := by
  cases stage with
  | processing frames _ history => exact ⟨frames,history⟩
  | between _ frames _ _ _ history => exact ⟨frames,history⟩
  | ended frames _ history => exact ⟨frames,history⟩

/-- In a run in which no module is reset under a call of `doWorkAsync`, each start belongs to
a call of the same event, and a filter only runs in an event in which a path that has it
came to it. -/
theorem starts_requested (job : Job L D E) (source : List Nat) (s : State L D E)
    (run : Reaches (next job) Quiet (initial L D E source) s) :
    (∀ start ∈ s.shared.schedule.starts, start.added = start.exchanged) ∧
    ∀ run ∈ s.shared.schedule.ran, ∀ label, run.wrapper = .filter label → ∃ p, label ∈ job.path p ∧
      ⟨.filter label,run.round,.nextFilter p⟩ ∈ s.shared.schedule.requests := by
  have preserved (s : State L D E) (a : Action) (t : State L D E)
      (stage : Stage job s.shared.schedule s.bag) (quiet : Quiet s a) (taken : next job s a = some t) :
      Stage job t.shared.schedule t.bag := next_stage stage quiet taken
  obtain ⟨frames,history⟩ := (run.invariant preserved (initial_stage job source)).history
  refine ⟨history.starts,fun run member label filter => ?_⟩
  obtain ⟨t,asked⟩ := history.ran run member
  rw [filter] at asked
  have source := history.requests _ asked
  cases t with
  | runModule v =>
    obtain ⟨m,_,g,_,same⟩ := getters_known job source
    cases same
  | nextFilter p =>
    obtain ⟨other,listed,same⟩ := source
    cases same
    exact ⟨p,listed,asked⟩
  | allPathsDone => exact absurd source id

def singlePath : Job Nat Unit Unit where
  filters := [⟨0,.threadSafeBetweenInstances,[],[],fun _ _ _ => ⟨[],true,none⟩⟩]
  producers := []
  paths := [[0]]

/-- Filter 2 is behind filter 0 on one path and behind filter 1 on the other. Both keep
event 0 only. -/
def lateCall : Job Nat Unit Unit where
  filters := [⟨0,.threadSafeBetweenInstances,[],[],fun _ index _ => ⟨[],index = 0,none⟩⟩,
    ⟨1,.threadSafeBetweenInstances,[],[],fun _ index _ => ⟨[],index = 0,none⟩⟩,
    ⟨2,.threadSafeBetweenInstances,[],[],fun _ _ _ => ⟨[],true,none⟩⟩]
  producers := []
  paths := [[0,2],[1,2]]

/-- Thread 7 exchanges the flag of filter 2 in the event in which it has added its task. -/
def inTimeRun : List Action :=
  turns [(29,0),(4,3),(3,2),(4,6),(3,5),(7,7),(5,8),(4,10),(3,9),(3,11),(3,12),(3,1),(3,13),(3,4),
    (2,14),(29,15),(4,18),(3,17),(4,21),(3,20),(3,22),(3,16),(3,23),(3,19),(2,24),(2,25)]

set_option maxRecDepth 4096 in
/-- Both paths come to filter 2 in event 0, where it is executed once; in event 1 neither does. -/
theorem starts_requested_inTime : ∃ s,
    execute (next lateCall) (initial Nat Unit Unit [0,1]) inTimeRun = some s ∧
    (s.shared.schedule.ran.filter fun run => run.wrapper = .filter 2).map Run.round = [1] ∧
    ∀ run ∈ s.shared.schedule.ran, ∀ label, run.wrapper = .filter label → ∃ p,
      label ∈ lateCall.path p ∧
      ⟨.filter label,run.round,.nextFilter p⟩ ∈ s.shared.schedule.requests := by
  have ran : (execute (next lateCall) (initial Nat Unit Unit [0,1]) inTimeRun).map
      (fun s => (s.shared.schedule.ran.filter fun run => run.wrapper = .filter 2).map Run.round) =
        some [1] := by decide +kernel
  obtain ⟨s,ran,rounds⟩ := Option.map_eq_some_iff.mp ran
  exact ⟨s,ran,rounds,(starts_requested lateCall [0,1] s (execute_reaches _ (by decide +kernel) ran)).2⟩

/-- Thread 7 adds a task to filter 2 in event 0 and exchanges its flag in event 1. -/
def lateCallRun : List Action :=
  turns [(29,0),(4,3),(3,2),(4,6),(3,5),(4,7),(7,8),(4,11),(3,9),(3,10),(3,12),(3,1),(3,13),(3,4),
    (2,14),(29,15),(4,18),(3,17),(4,21),(3,20),(3,22),(3,16),(3,23),(3,19),(2,24),(2,25),(3,7),(3,26)]

/-- A filter runs in event 1, which no path has brought to it. -/
theorem lateCall_starts : ∃ s, Reachable (next lateCall) (initial Nat Unit Unit [0,1]) s ∧
    (∃ start ∈ s.shared.schedule.starts, start.added ≠ start.exchanged) ∧
    ∃ run ∈ s.shared.schedule.ran, run.wrapper = .filter 2 ∧
      ∀ request ∈ s.shared.schedule.requests, request.wrapper = .filter 2 →
        request.round ≠ run.round := by
  have ran : (execute (next lateCall) (initial Nat Unit Unit [0,1]) lateCallRun).map (fun s => decide
      ((∃ start ∈ s.shared.schedule.starts, start.added ≠ start.exchanged) ∧
      ∃ run ∈ s.shared.schedule.ran, run.wrapper = .filter 2 ∧
        ∀ request ∈ s.shared.schedule.requests, request.wrapper = .filter 2 →
          request.round ≠ run.round)) = some true := by decide
  obtain ⟨s,ran,holds⟩ := Option.map_eq_some_iff.mp ran
  exact ⟨s,execute_reachable lateCallRun ran,of_decide_eq_true holds⟩

end ToyMtFramework.Schedule.Loop
