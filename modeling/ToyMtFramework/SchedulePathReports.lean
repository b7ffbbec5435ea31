import ToyMtFramework.ScheduleEvents

/-! A path requests its filters in order, goes on only past one that kept the event, and reports
once, with an exception if and only if the last filter that it requested has failed. This holds in
every run in which no module is reset under a call of `doWorkAsync`; a call that is left over from
an earlier event can make a path report before its filter has finished. -/
namespace ToyMtFramework.Schedule.Loop
open Activities Transition

variable {L D E : Type} [DecidableEq L] [DecidableEq D] {job : Job L D E}

def AtRest (s : State L D E) : Prop :=
  ∀ g ∈ s.bag, ∃ l t, g = .schedule (.node l t) ∧ (s.shared.schedule.list l).waiting = true

def LastFailed (job : Job L D E) (p : Nat) (log : List (Entry L D E)) : Prop :=
  ∃ i x, (requests p log).getLast? = some i ∧ FilterFinished job p i (some x) log

/-- What the log of an event shows of a path, up to the state that has been reached. -/
structure PathReports (job : Job L D E) (p : Nat) (s : State L D E) (log : List (Entry L D E)) : Prop where
  order : requests p log = List.range (requests p log).length
  inside : (requests p log).length ≤ (job.path p).length
  indexed : ∀ i, .schedule (.runFilterAsync p i) ∈ s.bag ∨ (∃ e, .schedule (.filterFinished p i e) ∈ s.bag) →
    i < (job.path p).length
  passed : ∀ before later i, log = before ++ .requested p (i + 1) :: later → FilterPassed job p i before
  stopped : ∀ before later e, log = before ++ .reported p e :: later → requests p later = []
  once : runs p log ≤ 1 ∧ (reports p log).length ≤ runs p log
  failed : ∀ e ∈ reports p log, (e ≠ none ↔ LastFailed job p log)
  released : s.shared.schedule.released ≠ [] → (reports p log).length = runs p log
  atRest : AtRest s → (job.Acyclic ∨ ∀ i ∈ requests p log, ∃ e, FilterFinished job p i e log) →
    (reports p log).length = runs p log

/-- A path that has ended carries the exception of the last filter that it requested. -/
theorem failed_iff {p : Nat} {e : Option E} {log : List (Entry L D E)} (modules : ModulesLogged job log)
    (path : PathLogged job p log) (reported : e ∈ reports p log) : e ≠ none ↔ LastFailed job p log := by
  obtain ⟨none_requested,last⟩ := path.ended e reported
  have order := path.order
  constructor
  · intro raised
    obtain ⟨x,rfl⟩ := Option.ne_none_iff_exists'.mp raised
    cases count : (requests p log).length with
    | zero => exact absurd (none_requested count) raised
    | succ i =>
      refine ⟨i,x,?_,last i count⟩
      rw [order,count,List.getLast?_range]
      simp
  · rintro ⟨i,x,requested,label,at_i,failed⟩
    have count : (requests p log).length = i + 1 := by
      rw [order,List.getLast?_range] at requested
      split at requested
      · cases requested
      · have equal := Option.some.inj requested
        omega
    obtain ⟨other,at_other,finished⟩ := last i count
    obtain rfl : other = label := Option.some.inj (at_other.symm.trans at_i)
    rw [modules.unique finished failed]
    exact Option.some_ne_none x

/-- A path whose filters have finished does not wait for ever. -/
theorem EventRight.reported {sh : Shared L D E} {bag : Multiset (Frame L D E)} {log : List (Entry L D E)}
    (right : EventRight job sh bag log) (quiescent : Quiescent sh bag) {p : Nat}
    (finished : ∀ i ∈ requests p log, ∃ e, FilterFinished job p i e log) :
    (reports p log).length = runs p log := by
  have round := right.state.round
  have path := round.counts.paths p
  have launched := quiescent.light (pending job.paths.length p) fun _ _ => rfl
  have still := quiescent.light (acting p) fun _ _ => rfl
  have ran := right.paths.runs p
  rw [launched,Nat.add_zero] at ran
  rw [right.paths.reports p,ran,launched]
  by_cases inside : p < job.paths.length
  · rw [if_pos inside,if_pos ⟨rfl,inside⟩]
    by_contra unsettled
    have waiting : sh.settled (.callback p) = 0 := by
      have bound := settled_le sh (.callback p)
      omega
    rw [launched,still,if_pos ⟨rfl,inside⟩,waiting,if_pos inside] at path
    obtain ⟨l,member,unclosed⟩ := round.quiescent_node quiescent (t := .nextFilter p) (by omega)
    cases l with
    | callback q =>
      have source := round.sourced _ member
      simp [Sourced] at source
    | waitingTasks w =>
      obtain ⟨going,⟨label,at_index,rfl⟩,_⟩ := right.paths.placed _ member
      have requested : sh.index p ∈ requests p log := by
        rw [going.requests]
        exact List.mem_range.mpr (Nat.lt_succ_self _)
      obtain ⟨e,other,at_other,ended⟩ := finished _ requested
      obtain rfl : other = label := Option.some.inj (at_other.symm.trans at_index)
      rw [(right.modules.told.finished.mp ended).1] at unclosed
      cases unclosed
  · simp [inside]

omit [DecidableEq L] [DecidableEq D] in
theorem refused_absent {sh : Shared L D E} {frames : Multiset (Frame L D E)} (refused : Refused sh frames)
    {f : Frame L D E} (working : ∀ w added, f ≠ .startWork w added) :
    .schedule f ∉ frames.map LoopFrame.schedule := by
  intro member
  obtain ⟨g,inside,same⟩ := Multiset.mem_map.mp member
  cases same
  obtain ⟨w,added,same,_⟩ := refused f inside
  exact working w added same

section Phases
variable {sh : Shared L D E} {log : List (Entry L D E)} {bag : Multiset (LoopFrame L D E)}
  (phase : Phase job (EventRight job) (BetweenRight job) sh log bag)
include phase

theorem Phase.logged : ModulesLogged job log ∧ ∀ p, PathLogged job p log := by
  cases phase with
  | inside frames round history right => exact ⟨right.modules.logged,right.paths.logged⟩
  | between c frames outside between fresh history right => exact ⟨right.modules,right.paths⟩
  | ended frames refused right => exact ⟨right.modules,right.paths⟩

/-- A path that acts is at one of its filters. -/
theorem Phase.indexed {p i : Nat} (acts : .schedule (.runFilterAsync p i) ∈ bag ∨
    ∃ e, .schedule (.filterFinished p i e) ∈ bag) : i < (job.path p).length := by
  have absent {frames : Multiset (Frame L D E)} (refused : Refused sh frames)
      (acts : .schedule (.runFilterAsync p i) ∈ frames.map LoopFrame.schedule ∨
        ∃ e, .schedule (.filterFinished p i e) ∈ frames.map LoopFrame.schedule) : False := by
    rcases acts with member | ⟨e,member⟩
    · exact refused_absent refused (by simp) member
    · exact refused_absent refused (by simp) member
  cases phase with
  | inside frames round history right =>
    rcases acts with member | ⟨e,member⟩
    · obtain ⟨f,present,same⟩ := Multiset.mem_map.mp member
      cases same
      exact (right.paths.placed _ present).2.1
    · obtain ⟨f,present,same⟩ := Multiset.mem_map.mp member
      cases same
      obtain ⟨_,⟨label,at_i,_⟩,_⟩ := right.paths.placed _ present
      exact (List.getElem?_eq_some_iff.mp at_i).1
  | between c frames outside between fresh history right =>
    refine absurd (absent between.refused ?_) id
    rcases acts with member | ⟨e,member⟩
    · exact Or.inl ((Multiset.mem_cons.mp member).resolve_left (outside _).symm)
    · exact Or.inr ⟨e,(Multiset.mem_cons.mp member).resolve_left (outside _).symm⟩
  | ended frames refused right => exact absurd (absent refused acts) id

/-- When the callback of the event has been released, its paths have reported. -/
theorem Phase.released (released : sh.released ≠ []) (p : Nat) : (reports p log).length = runs p log := by
  cases phase with
  | inside frames round history right => exact absurd right.unreleased released
  | between c frames outside between fresh history right => exact right.reported p
  | ended frames refused right => exact right.reported p

end Phases

/-- In a run in which no module is reset under a call of `doWorkAsync`, each path of each event
requests its filters in order and reports once. -/
theorem path_reports (framework : Framework) (job : Job L D E) (source : List Nat) (s : State L D E)
    (log : List (Entry L D E)) (run : Reaches (nextLogged framework job) (fun t a => Quiet t.1 a)
      (initial L D E source,[]) (s,log)) (p : Nat) : PathReports job p s log := by
  have phase := (eventRule job).phase run
  obtain ⟨modules,paths⟩ := phase.logged
  have path := paths p
  refine ⟨path.order,path.inside,fun i acts => phase.indexed acts,path.passed,path.stopped,path.once,
    fun e reported => failed_iff modules path reported,fun released => phase.released released p,?_⟩
  intro resting outcomes
  generalize bag_eq : s.bag = bag at phase
  cases phase with
  | inside frames round history right =>
    have quiescent : Quiescent s.shared.schedule frames := by
      intro f member
      obtain ⟨l,t,same,waiting⟩ := resting (.schedule f) (by rw [bag_eq]; exact Multiset.mem_map_of_mem _ member)
      cases same
      exact ⟨l,t,rfl,waiting⟩
    rcases outcomes with acyclic | finished
    · have released := round.quiescent_released acyclic quiescent
      rw [right.unreleased] at released
      cases released
    · exact EventRight.reported right quiescent finished
  | between c frames outside between fresh history right => exact right.reported p
  | ended frames refused right => exact right.reported p

/-- Filter 2 is behind filter 0 on one path and behind filter 1 on the other. Both reject
event 1 only. Filter 2 may throw. -/
def lateReport : Job Nat Unit Unit where
  filters := [⟨0,.threadSafeBetweenInstances,[],[],fun _ index _ => ⟨[],index ≠ 1,none⟩⟩,
    ⟨1,.threadSafeBetweenInstances,[],[],fun _ index _ => ⟨[],index ≠ 1,none⟩⟩,
    ⟨2,.threadSafeBetweenInstances,[],[],fun seed _ _ => ⟨[],true,if seed = 1 then some () else none⟩⟩]
  producers := []
  paths := [[0,2],[1,2]]

/-- Filter 2 throws in event 0, where both paths wait for it. -/
def bothWaitRun : List Action :=
  turns [(29,0),(4,3),(3,2),(4,6),(3,5),(7,7),(5,8),(2,10)] ++ [.act 10 1] ++
    turns [(1,10),(3,9),(3,11),(3,12),(3,1),(3,13),(3,4),(2,14),(1,15)]

set_option maxRecDepth 4096 in
theorem path_reports_bothWait : ∃ s log,
    execute (nextLogged .openMP lateReport) (initial Nat Unit Unit [0],[]) bothWaitRun = some (s,log) ∧
    (reports 0 log,reports 1 log) = ([some ()],[some ()]) ∧ PathReports lateReport 0 s log ∧
      PathReports lateReport 1 s log := by
  have ran : (execute (nextLogged .openMP lateReport) (initial Nat Unit Unit [0],[]) bothWaitRun).map
      (fun s => (reports 0 s.2,reports 1 s.2)) = some ([some ()],[some ()]) := by decide +kernel
  obtain ⟨⟨s,log⟩,ran,outcome⟩ := Option.map_eq_some_iff.mp ran
  have right (p : Nat) : PathReports lateReport p s log :=
    path_reports .openMP lateReport [0] s log (execute_reaches _ (by decide +kernel) ran) p
  exact ⟨s,log,ran,outcome,right 0,right 1⟩

/-- Thread 7 adds a task to filter 2 in event 0 and starts the filter in event 1, which no path
brings to it. That execution ends in event 2, before the one of event 2 does, and that one throws. -/
def lateReportRun : List Action :=
  turns [(29,0),(4,3),(3,2),(4,6),(3,5),(4,7),(7,8),(4,11),(3,9),(3,10),(3,12),(3,1),(3,13),(3,4),(2,14),
    (29,15),(3,7),(2,22),(4,18),(3,17),(4,21),(3,20),(3,23),(3,24),(3,16),(3,19),(2,25),(29,26),(4,29),
    (3,28),(7,33),(2,22),(3,34),(3,36),(2,35)] ++ [.act 35 1,.act 35 1]

set_option maxRecDepth 4096 in
/-- The path of filters 0 and 2 reports no exception in event 2 although filter 2 fails there. -/
theorem lateReport_lost : ∃ s log,
    Reachable (nextLogged .tbb lateReport) (initial Nat Unit Unit [0,1,2],[]) (s,log) ∧
      none ∈ reports 0 log ∧ LastFailed lateReport 0 log := by
  have ran : (execute (nextLogged .tbb lateReport) (initial Nat Unit Unit [0,1,2],[]) lateReportRun).map
      (fun s => (reports 0 s.2,requests 0 s.2,finishes (.filter 2) s.2)) =
        some ([none],[0,1],[none,some ()]) := by decide
  obtain ⟨s,ran,outcome⟩ := Option.map_eq_some_iff.mp ran
  obtain ⟨reported,outcome⟩ := Prod.mk.inj outcome
  obtain ⟨requested,finished⟩ := Prod.mk.inj outcome
  refine ⟨s.1,s.2,execute_reachable lateReportRun ran,by simp [reported],1,(),by simp [requested],2,rfl,?_⟩
  apply mem_finishes.mp
  simp [finished]

end ToyMtFramework.Schedule.Loop
