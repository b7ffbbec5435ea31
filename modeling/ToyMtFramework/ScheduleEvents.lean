import ToyMtFramework.SchedulePaths

/-! What holds of every event of a stream and of its log, as long as no module is reset under a
call of `doWorkAsync`. An event that is followed by another has thrown nothing, so its tasks have no
exception left, and the resets take back what its filters kept and its producers put. -/
namespace ToyMtFramework.Schedule
open Activities Transition
open Loop

variable {L D E : Type} [DecidableEq L] [DecidableEq D] {job : Job L D E}

structure EventRight (job : Job L D E) (sh : Shared L D E) (bag : Multiset (Frame L D E))
    (log : List (Entry L D E)) : Prop where
  state : RoundState job sh bag
  unreleased : sh.released = []
  modules : ModulesRight job sh bag log
  paths : PathsRight job sh bag log
  blank : .runPaths ∈ bag → sh.exceptionPtr .allPathsDone = none

structure Clean (sh : Shared L D E) : Prop where
  quiet : ∀ e, ¬Thrown sh e
  tasks : ∀ t, sh.exceptionPtr t = none
  lists : ∀ l, (sh.list l).exceptionPtr = none
  setFatal : sh.setFatal = false

def unkept (job : Job L D E) : LoopFrame L D E → List L
  | .schedule _ => []
  | .handleNextEventAsync _ | .eventReset _ _ => filterLabels job
  | .scheduleReset ls step => if step = .wrapper then ls else ls.tail

def uncached (job : Job L D E) : LoopFrame L D E → List (L × D)
  | .handleNextEventAsync _ => lookupMap job
  | .eventReset ks step => if step = .wrapper then ks else ks.tail
  | _ => []

/-- What holds between two events, in front of `c`, and when there are no more events. -/
structure BetweenRight (job : Job L D E) (c : Option (LoopFrame L D E)) (sh : Shared L D E)
    (log : List (Entry L D E)) : Prop where
  modules : ModulesLogged job log
  paths : ∀ p, PathLogged job p log
  reported : ∀ p, (reports p log).length = runs p log
  clean : ∀ d, c = some d → (∀ e, d ≠ .handleNextEventAsync (some e)) → Clean sh
  kept : ∀ d, c = some d → ∀ label, sh.keep label = true → label ∈ unkept job d
  cached : ∀ d, c = some d → ∀ k ∈ lookupMap job, (sh.cache k.1 k.2).wasCached = true → k ∈ uncached job d

section Inside
variable {sh : Shared L D E} {f : Frame L D E} {r : Reaction (Shared L D E) (Frame L D E)}
  {rest bag : Multiset (Frame L D E)} {log es : List (Entry L D E)} {e : Option E}

theorem EventRight.blanks (right : EventRight job sh bag log) {f : Frame L D E} (member : f ∈ bag) :
    Blank sh f := by
  have counts := right.state.round.counts
  have placed := right.paths.placed f member
  constructor
  · rintro rfl
    have schedule := counts.schedule
    have last : 0 < weigh ending bag := weigh_pos member (by simp [ending])
    exact ⟨by omega,right.blank member⟩
  · rintro p i rfl
    have path := counts.paths p
    have acts : 0 < weigh (acting p) bag := weigh_pos member (by simp [acting])
    obtain ⟨_,_,_,blank⟩ := placed
    refine ⟨?_,blank⟩
    split_ifs at path <;> omega
  · rintro w added rfl unstarted
    have module := counts.modules w
    rw [if_neg (by simp [unstarted])] at module
    exact ⟨by omega,right.modules.unstarted w unstarted⟩

theorem released_react (reacts : Reacts job sh f r) (going : ∀ e, f ≠ .callback e) :
    r.shared.released = sh.released := by
  cases reacts with
  | callback e => exact absurd rfl (going e)
  | _ => rfl

/-- `AllPathsDoneTask` is told nothing before the paths are run. -/
theorem blank_react (counts : Counts job sh (f ::ₘ rest))
    (blank : .runPaths ∈ f ::ₘ rest → sh.exceptionPtr .allPathsDone = none) (reacts : Reacts job sh f r)
    (member : .runPaths ∈ r.frames + rest) : r.shared.exceptionPtr .allPathsDone = none := by
  have old : .runPaths ∈ rest := by
    rcases Multiset.mem_add.mp member with new | old
    · cases reacts <;> simp at new
    · exact old
  have before := blank (Multiset.mem_cons_of_mem old)
  cases reacts with
  | doneWaitingTask t e =>
    have other : .allPathsDone ≠ t := by
      rintro rfl
      have held := counts.owned (Multiset.mem_cons_self _ _) (t := .allPathsDone) (by simp [owns])
      have schedule := counts.schedule
      have last : 0 < weigh ending rest := weigh_pos old (by simp [ending])
      rw [weigh_cons] at schedule
      omega
    simpa [Shared.dependentTaskFailed,other] using before
  | _ => exact before

theorem EventRight.react (right : EventRight job sh (f ::ₘ rest) log) (history : History job sh (f ::ₘ rest))
    (going : ∀ e, f ≠ .callback e) (logs : Logs job sh f r es) :
    EventRight job r.shared (r.frames + rest) (log ++ es) := by
  have round := right.state.round
  refine ⟨right.state.react logs.reacts,?_,right.modules.react round.counts history logs,
    right.paths.react right.modules round logs,blank_react round.counts right.blank logs.reacts⟩
  rw [released_react logs.reacts going]
  exact right.unreleased

/-- When the callback is released, every path has reported. -/
theorem EventRight.release (right : EventRight job sh (.callback e ::ₘ rest) log) :
    BetweenRight job (some (.handleNextEventAsync e)) {sh with released := sh.released ++ [e]} log := by
  have round := right.state.round
  have schedule := round.counts.schedule
  rw [weigh_cons,ending] at schedule
  have quiet : Over sh (.callback e ::ₘ rest) := by
    refine ⟨fun member => ?_,by omega⟩
    have other : .runPaths ∈ rest := by simpa using member
    have last : 0 < weigh ending rest := weigh_pos other (by simp [ending])
    omega
  refine ⟨right.modules.logged,right.paths.logged,?_,?_,?_,?_⟩
  · intro p
    obtain ⟨_,_,launched,closed⟩ := round.path_over quiet p
    have ran := right.paths.runs p
    rw [launched,Nat.add_zero] at ran
    rw [right.paths.reports p,ran,launched]
    by_cases inside : p < job.paths.length
    · simp [inside,Shared.settled,closed inside]
    · simp [inside]
  · intro d same returned
    obtain rfl := Option.some.inj same
    have normal : e = none := by
      cases e with
      | none => rfl
      | some x => exact absurd rfl (returned x)
    subst e
    have after := right.state.react (.callback none)
    have nothing (x : E) : ¬Thrown sh x := by
      intro thrown
      exact after.callback_thrown (e := none) (by simp) ⟨x,thrown⟩ rfl
    refine ⟨nothing,?_,?_,?_⟩
    · intro t
      by_contra given
      obtain ⟨x,equal⟩ := Option.ne_none_iff_exists'.mp given
      exact nothing x (right.state.honest.tasks t x equal)
    · intro l
      by_contra given
      obtain ⟨x,equal⟩ := Option.ne_none_iff_exists'.mp given
      exact nothing x (right.state.honest.lists l x equal)
    · have unset := right.state.flagged.callback none (Multiset.mem_cons_self _ _)
      simpa using unset
  · intro d same label kept
    obtain rfl := Option.some.inj same
    exact (right.modules.kept label kept).1
  · intro d same k listed _
    obtain rfl := Option.some.inj same
    exact listed

theorem EventRight.fatal (right : EventRight job sh bag log) :
    EventRight job {sh with fatal := true} bag log := by
  obtain ⟨⟨round,⟨frames,tasks,lists,released⟩,carried,⟨_,callback,given,early⟩⟩,unreleased,modules,paths,blank⟩ :=
    right
  have aside (p : Nat) : Aside (E := E) p sh {sh with fatal := true} ([] : List (Entry L D E)) :=
    ⟨rfl,rfl,rfl,rfl,rfl⟩
  refine ⟨⟨round.otherStreamFails,⟨frames,tasks,lists,released⟩,carried,⟨fun _ => rfl,callback,given,early⟩⟩,
    unreleased,⟨modules.told,modules.kept,modules.cached,modules.backed,modules.fetched,modules.logged,
      modules.unstarted⟩,⟨?_,paths.logged,paths.runs,paths.reports,paths.single⟩,blank⟩
  intro f member
  have placed := (paths.placed f member).aside fun p _ => aside p
  rwa [List.append_nil] at placed

end Inside

section Outside
variable {sh : Shared L D E} {log : List (Entry L D E)}

theorem BetweenRight.start (job : Job L D E) :
    BetweenRight job (some (.handleNextEventAsync none)) (fresh E L D 0) [] := by
  refine ⟨⟨by simp [finishes],by simp,by simp⟩,?_,by simp,?_,by simp [fresh],by simp [fresh]⟩
  · intro p
    constructor <;> simp
  · intro d _ _
    constructor <;> simp [fresh,Thrown]

theorem Clean.controls {sh after : LoopShared L D E} {c : LoopFrame L D E} {d : Option (LoopFrame L D E)}
    (clean : Clean sh.schedule) (acts : Controls job sh c after d) : Clean after.schedule := by
  obtain ⟨quiet,tasks,lists,setFatal⟩ := clean
  have reset (w : Wrapper L D) (l : ListId L D) : ((resetWaitingTasks sh.schedule w).list l).exceptionPtr = none := by
    by_cases same : l = .waitingTasks w
    · simp [resetWaitingTasks,Shared.setList,same]
    · simpa [resetWaitingTasks,Shared.setList,same] using lists l
  cases acts with
  | producerTasks k ks => exact ⟨quiet,tasks,reset _,setFatal⟩
  | filterTasks l ls => exact ⟨quiet,tasks,reset _,setFatal⟩
  | _ => exact ⟨quiet,tasks,lists,setFatal⟩

theorem BetweenRight.controls {sh after : LoopShared L D E} {c : LoopFrame L D E}
    {d : Option (LoopFrame L D E)} (right : BetweenRight job (some c) sh.schedule log)
    (acts : Controls job sh c after d) : BetweenRight job d after.schedule log := by
  refine ⟨right.modules,right.paths,right.reported,?_,?_,?_⟩
  · intro x same _
    subst d
    have clean : Clean sh.schedule := by
      refine right.clean c rfl ?_
      rintro e rfl
      cases acts
    exact clean.controls acts
  · intro x same label kept
    subst d
    have before := right.kept c rfl label
    cases acts with
    | handle => exact before kept
    | accepted step eventIndex source => exact before kept
    | resetCache k ks => exact before kept
    | producerStarted k ks => exact before kept
    | producerTasks k ks => exact before kept
    | resetKeep l ls =>
      have other : label ≠ l := by
        rintro rfl
        simp [resetKeep] at kept
      have listed := before (by simpa [resetKeep,other] using kept)
      simpa [unkept,other] using listed
    | filterStarted l ls => exact before kept
    | filterTasks l ls => exact before kept
  · intro x same k listed cached
    subst d
    have before := right.cached c rfl k listed
    cases acts with
    | handle => exact before cached
    | accepted step eventIndex source => simpa [uncached] using before cached
    | resetCache j ks =>
      have other : k ≠ j := by
        rintro rfl
        simp [resetCache] at cached
      have apart : k.1 ≠ j.1 ∨ k.2 ≠ j.2 := by
        by_contra equal
        push Not at equal
        exact other (Prod.ext equal.1 equal.2)
      have listed := before (by
        rcases apart with apart | apart
        · simpa [resetCache,Function.update_apply,apart] using cached
        · by_cases labels : k.1 = j.1
          · simpa [resetCache,labels,apart] using cached
          · simpa [resetCache,labels] using cached)
      simpa [uncached,other] using listed
    | producerStarted j ks => exact before cached
    | producerTasks j ks => exact before cached
    | resetKeep l ls => exact before cached
    | filterStarted l ls => exact before cached
    | filterTasks l ls => exact before cached

theorem BetweenRight.fatal {c : Option (LoopFrame L D E)} (right : BetweenRight job c sh log) :
    BetweenRight job c {sh with fatal := true} log := by
  obtain ⟨modules,paths,reported,clean,kept,cached⟩ := right
  refine ⟨modules,paths,reported,fun d same returned => ?_,kept,cached⟩
  obtain ⟨quiet,tasks,lists,setFatal⟩ := clean d same returned
  exact ⟨quiet,tasks,lists,setFatal⟩

/-- When all is reset, the paths are run on a clean schedule. -/
theorem BetweenRight.begin {step : ResetStep} (right : BetweenRight job (some (.scheduleReset [] step)) sh log)
    (between : Between job sh (.scheduleReset [] step) 0) (round : Round job sh {.runPaths}) :
    EventRight job sh {.runPaths} [] := by
  obtain ⟨quiet,tasks,lists,setFatal⟩ := right.clean _ rfl (by simp)
  have schedule := round.counts.schedule
  rw [weigh_singleton,ending] at schedule
  have unreleased : sh.released = [] := List.length_eq_zero_iff.mp (by omega)
  have unstarted (w : Wrapper L D) : sh.workStarted w = false := by
    by_contra was
    have left := between.started w (by simpa using was)
    simp [unflagged] at left
  have waiting (w : Wrapper L D) : (sh.list (.waitingTasks w)).waiting = true := by
    by_contra closed
    have left := between.closed w (by simpa using closed)
    simp [unlisted] at left
  have unkept (label : L) : sh.keep label = false := by
    by_contra kept
    have left := right.kept _ rfl label (by simpa using kept)
    cases step <;> simp [Schedule.unkept] at left
  refine ⟨⟨round,⟨?_,?_,?_,?_⟩,?_,⟨?_,?_,?_,?_⟩⟩,unreleased,⟨?_,?_,?_,?_,?_,?_,?_⟩,⟨?_,?_,?_,?_,?_⟩,
    fun _ => tasks _⟩
  · simp [Frame.exception]
  · simp [tasks]
  · simp [lists]
  · simp [unreleased]
  · rintro ⟨x,thrown⟩
    exact absurd thrown (quiet x)
  · simp [setFatal]
  · simp
  · simp [unreleased]
  · simp [setFatal]
  · intro w
    rw [waiting w]
    rfl
  · intro label kept
    rw [unkept label] at kept
    cases kept
  · intro k listed
    have fresh : (sh.cache k.1 k.2).wasCached = false := by
      by_contra cached
      have left := right.cached _ rfl k listed (by simpa using cached)
      simp [uncached] at left
    simp [DataCache.cached,fresh,puts]
  · simp [Backed]
  · intro w started
    rw [unstarted w] at started
    cases started
  · exact ⟨by simp [finishes],by simp,by simp⟩
  · exact fun w _ => tasks _
  · intro f member
    obtain rfl := Multiset.mem_singleton.mp member
    exact fun p _ => ⟨rfl,rfl,rfl,tasks _⟩
  · intro p
    constructor <;> simp
  · simp [pending]
  · intro p
    by_cases inside : p < job.paths.length <;> simp [pending,inside]
  · intro p
    have path := round.counts.paths p
    have unheld := between.unheld (.nextFilter p)
    omega

end Outside

/-- The rule holds of what is right in an event and between events. -/
theorem eventRule (job : Job L D E) : Rule job (EventRight job) (BetweenRight job) where
  start := BetweenRight.start job
  blank := fun _ right _ member => right.blanks member
  react := fun _ history right going logs => right.react history going logs
  release := fun _ right => right.release
  control := fun acts right => right.controls acts
  begin := fun between round right => right.begin between round
  fatalInside := fun right => right.fatal
  fatalOutside := fun right => right.fatal
end ToyMtFramework.Schedule
