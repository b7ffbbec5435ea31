import ToyMtFramework.ProcessAllReports
import ToyMtFramework.ScheduleAgreement

/-! `processAll` as its caller sees it. In every run in which no module is reset under a call of
`doWorkAsync` and no holder of `lastTask` is the last one while streams are left to launch, each event
of the source is processed by one stream as if it were alone, and when the call returns the events
are finished and the exception is that of one of them, if any has failed. -/
namespace ToyMtFramework.ProcessAll
open Activities Transition
open Schedule (Job Entry LogMeans AsSingleThreaded sharedFilter sharedFilter_plain)
open Schedule.Loop (LoopFrame Journal Finished StreamRule Streaming Reporting Raised Accounted inProgress
  underway streamingRule reportingRule)

variable {L D E : Type} [DecidableEq L] [DecidableEq D] {job : Job L D E} {N : Nat} {source : List Nat}
  {Keeps : Schedule.Shared L D E → List (Entry L D E) → Multiset (LoopFrame L D E) → Journal L D E → Prop}

structure Working (Keeps : Schedule.Shared L D E → List (Entry L D E) → Multiset (LoopFrame L D E) →
    Journal L D E → Prop) (N : Nat) (source : List Nat) (s : State L D E × (Nat → Record L D E)) : Prop where
  streams : ∃ waiting, StreamsKeep Keeps N s.1.shared s.1.bag s.2 waiting
  held : Held N s.1.shared s.1.bag
  answers : Answers N s.1.shared s.1.bag s.2
  returns : Returns s.1.shared
  given : (accepted N s.2 ++ s.1.shared.source).Perm source

theorem Working.next (rule : StreamRule job Keeps) {s t : State L D E × (Nat → Record L D E)} {a : Nat × Nat}
    (working : Working Keeps N source s) (quiet : Quiet s.1 a) (kept : Kept s.1 a)
    (taken : nextRecorded job N s a = some t) : Working Keeps N source t := by
  obtain ⟨streams,held,answers,returns,given⟩ := working
  have streamsAfter := StreamsKeep.next rule streams quiet taken
  obtain ⟨waiting,keep⟩ := streams
  obtain ⟨moved,recorded⟩ := recording_taken taken
  have heldAfter := held.next kept moved
  unfold ProcessAll.next at moved
  split at moved
  · cases moved
  · obtain ⟨f,r,rest,reacted,shared,before,after,top⟩ := Pool.step_bag moved
    rw [record,top,Option.elim_some] at recorded
    rw [before] at keep held answers
    obtain ⟨left,_,turns⟩ := react_turns keep.queued reacted
    have emptied (empty : s.1.shared.source = []) : r.shared.source = [] := by
      cases turns with
      | silent none streams same bags => rw [same,empty]
      | acting i g x mine reacted own same others bags =>
        have moved := Schedule.Loop.source_react [] (Journal.empty L D E) reacted
        rw [empty] at moved
        rw [same]
        exact (List.append_eq_nil_iff.mp moved).2
    refine ⟨streamsAfter,heldAfter,?_,?_,?_⟩
    · rw [shared,after,recorded]
      exact answers.react (fun i g mine => keep.bound mine) emptied reacted
    · rw [shared]
      exact returns.react held reacted
    · rw [shared,recorded]
      exact keep.given given reacted

theorem Working.initial (rule : StreamRule job Keeps) (some : 0 < N) (source : List Nat) :
    Working Keeps N source (initial L D E N source,noRecords L D E) := by
  have none (i : Nat) (e : E) : ¬Failed (noRecords L D E i) e := by
    rintro ⟨x,member,_⟩
    cases member
  refine ⟨⟨0,StreamsKeep.initial rule some source⟩,initial_held some source,⟨?_,?_,?_,?_⟩,⟨?_,?_,?_⟩,?_⟩
  · intro f member i e fails
    obtain rfl : f = .processAll := by simpa [ProcessAll.initial,Pool.bag] using member
    cases fails
  · intro e set
    cases set
  · intro i _ e failed
    exact absurd failed (none i e)
  · intro ended
    exact absurd rfl ended
  · exact fun _ => ⟨rfl,rfl⟩
  · intro executed
    exact absurd executed (Nat.lt_irrefl 0)
  · intro e returned
    cases returned
  · have empty : accepted N (noRecords L D E) = [] := List.flatMap_eq_nil_iff.mpr fun _ _ => rfl
    rw [empty]
    exact List.Perm.refl _

theorem Working.reaches (rule : StreamRule job Keeps) (some : 0 < N) {s : State L D E × (Nat → Record L D E)}
    (run : Reaches (nextRecorded job N) (fun t a => Quiet t.1 a ∧ Kept t.1 a)
      (ProcessAll.initial L D E N source,noRecords L D E) s) : Working Keeps N source s := by
  have preserved (s : State L D E × (Nat → Record L D E)) (a : Nat × Nat) (t : State L D E × (Nat → Record L D E))
      (working : Working Keeps N source s) (admitted : Quiet s.1 a ∧ Kept s.1 a)
      (taken : nextRecorded job N s a = Option.some t) : Working Keeps N source t :=
    working.next rule admitted.1 admitted.2 taken
  exact run.invariant preserved (Working.initial rule some source)

/-- A stream whose event is up to none of its frames has finished all it was given. -/
theorem rested {sh : Shared L D E} {bag : Multiset (Frame L D E)} (unlaunched : sh.main.unlaunched = []) {i : Nat}
    (drives : weigh (ofStream driving i) bag = 0) (waiting : Multiset (QueueId L D × QueuedTask L D E)) :
    weigh underway (streamBag i sh.main bag waiting) = 0 := by
  refine Activities.weigh_light fun g member => ?_
  rw [streamBag,unlaunched,Multiset.mem_add,Multiset.mem_add,mem_inStream] at member
  rcases member with (⟨f,present,mine⟩ | queued) | launch
  · cases f with
    | stream j h =>
      cases mine
      have light := weigh_eq_zero drives present
      simp only [ofStream,if_true] at light
      cases g <;> simp [driving,underway] at light ⊢
      exact light
    | serialTask t =>
      cases mine
      rfl
    | _ => cases mine
  · obtain ⟨t,_,inside⟩ := Multiset.mem_bind.mp queued
    unfold QueuedTask.inStream at inside
    split at inside
    · rw [Multiset.mem_singleton.mp inside]
      rfl
    · cases inside
  · simp at launch

/-- On return each stream has finished what it was given. -/
theorem Working.returned {s : State L D E × (Nat → Record L D E)} (working : Working Keeps N source s)
    (accounted : ∀ sh log bag j, Keeps sh log bag j → Accounted sh bag j) {e : Option E}
    (returned : s.1.shared.main = .returned e) : finished N s.2 = accepted N s.2 := by
  obtain ⟨waiting,keep⟩ := working.streams
  obtain ⟨unlaunched,_,resting⟩ := working.held.resting (working.returns.returned e returned).1
  refine List.flatMap_congr fun i member => ?_
  have account := accounted _ _ _ _ (keep.streams i (List.mem_range.mp member))
  obtain ⟨drives,refCount,_⟩ := resting i
  rw [Accounted,inProgress,rested unlaunched drives,refCount] at account
  simpa using account.symm

/-- For modules that never throw, each event of the source is processed by one stream, with what the
event means and what the single-threaded framework does in it, each stream finishes its events
in the order in which it got them, and on return all of them are finished and no exception is given. -/
theorem processes_events (job : Job L D E) (plain : job.Plain) (N : Nat) (some : 0 < N) (source : List Nat)
    (s : State L D E) (records : Nat → Record L D E)
    (run : Reaches (nextRecorded job N) (fun t a => Quiet t.1 a ∧ Kept t.1 a)
      (initial L D E N source,noRecords L D E) (s,records)) :
    (accepted N records ++ s.shared.source).Perm source ∧
    (∀ i < N, (records i).2.finished.map Finished.eventIndex <+: (records i).2.accepted ∧
      ∀ x ∈ (records i).2.finished, x.exceptionPtr = none ∧ LogMeans plain x.eventIndex x.log ∧
        ∀ seed, ∀ᶠ depth in Filter.atTop, ∃ t, SingleThreaded.process job seed x.eventIndex depth
          (SingleThreaded.fresh L D) = .ok t ∧ AsSingleThreaded job x.log t) ∧
    (∀ e, s.shared.main = .returned e → e = none ∧ (finished N records).Perm source) := by
  have working := Working.reaches (streamingRule plain) some run
  obtain ⟨waiting,keep⟩ := working.streams
  have normal (i : Nat) (inside : i < N) (x : Finished L D E) (member : x ∈ (records i).2.finished) :
      x.exceptionPtr = none := ((keep.streams i inside).finished x member).1
  refine ⟨working.given,fun i inside => ⟨⟨_,(keep.streams i inside).accounted.symm⟩,fun x member => ?_⟩,?_⟩
  · have means := ((keep.streams i inside).finished x member).2
    exact ⟨normal i inside x member,means,fun seed => means.agrees seed SingleThreaded.fresh_unrun⟩
  · intro e returned
    obtain ⟨executed,rfl⟩ := working.returns.returned e returned
    have calm (i : Nat) (inside : i < N) (e : E) : ¬Failed (records i) e := by
      rintro ⟨x,member,thrown⟩
      rw [normal i inside x member] at thrown
      cases thrown
    have all := working.returned (fun _ _ _ _ streaming => streaming.accounted) returned
    refine ⟨?_,?_⟩
    · by_contra set
      obtain ⟨x,set⟩ := Option.ne_none_iff_exists'.mp set
      obtain ⟨i,inside,failed⟩ := working.answers.given x set
      exact calm i inside x failed
    · rw [all]
      have given := working.given
      rcases working.answers.ended (working.held.ended_some some executed) with empty | ⟨i,inside,x,failed⟩
      · rw [empty,List.append_nil] at given
        exact given
      · exact absurd failed (calm i inside x)

def sharedFilterStreams : List (Nat × Nat) :=
  turns [(65,0),(4,4),(3,3),(4,10),(3,9),(1,13),(1,14),(1,0),(5,15),(3,2),(3,6),(1,15),(3,16),(3,1),(3,17),
    (3,5),(5,18),(3,8),(3,12),(1,18),(2,19),(3,20),(3,7),(3,21),(3,11),(7,22),(2,0),(2,23),(7,24),(2,25),(3,0)]

set_option maxRecDepth 4096 in
/-- Two streams process an event each at the same time; their filter has a queue. -/
theorem processes_events_sharedFilter : ∃ s records,
    execute (nextRecorded sharedFilter 2) (initial Nat Unit Unit 2 [3,4],noRecords Nat Unit Unit)
      sharedFilterStreams = some (s,records) ∧ s.shared.main = .returned none ∧
    (finished 2 records).Perm [3,4] ∧
    ∀ i < 2, ∀ x ∈ (records i).2.finished, LogMeans sharedFilter_plain x.eventIndex x.log := by
  have ran : (execute (nextRecorded sharedFilter 2) (initial Nat Unit Unit 2 [3,4],noRecords Nat Unit Unit)
      sharedFilterStreams).map (fun s => decide (s.1.shared.main = .returned none)) = some true := by
    decide +kernel
  obtain ⟨⟨s,records⟩,ran,quiet⟩ := Option.map_eq_some_iff.mp ran
  have returned := of_decide_eq_true quiet
  obtain ⟨_,streams,ended⟩ := processes_events sharedFilter sharedFilter_plain 2 (by decide) [3,4] s records
    (execute_reaches sharedFilterStreams (by decide +kernel) ran)
  exact ⟨s,records,ran,returned,(ended none returned).2,
    fun i inside x member => ((streams i inside).2 x member).2.1⟩

/-- Whatever the modules throw, each event that the source has given is finished when the call
returns. It gives no exception if and only if no body was ended by one, and then all the events of the
source are finished; otherwise it gives one that has ended a body. -/
theorem processAll_reports (job : Job L D E) (N : Nat) (some : 0 < N) (source : List Nat)
    (s : State L D E) (records : Nat → Record L D E)
    (run : Reaches (nextRecorded job N) (fun t a => Quiet t.1 a ∧ Kept t.1 a)
      (initial L D E N source,noRecords L D E) (s,records)) (e : Option E) (returned : s.shared.main = .returned e) :
    (finished N records ++ s.shared.source).Perm source ∧
    (e = none ↔ ∀ i < N, ∀ x ∈ (records i).2.finished, ∀ y, ¬Raised x.log y) ∧
    (e = none → (finished N records).Perm source) ∧
    (∀ y, e = Option.some y → ∃ i < N, ∃ x ∈ (records i).2.finished, Raised x.log y) := by
  have working := Working.reaches (reportingRule job) some run
  obtain ⟨waiting,keep⟩ := working.streams
  obtain ⟨executed,given⟩ := working.returns.returned e returned
  have all := working.returned (fun _ _ _ _ reporting => reporting.accounted) returned
  have tells (i : Nat) (inside : i < N) (y : E) (failed : Failed (records i) y) :
      ∃ x ∈ (records i).2.finished, Raised x.log y := by
    obtain ⟨x,member,thrown⟩ := failed
    exact ⟨x,member,((keep.streams i inside).finished x member).1 y thrown⟩
  have calm (none : e = .none) (i : Nat) (inside : i < N) (y : E) : ¬Failed (records i) y := by
    intro failed
    rcases working.answers.reported i inside y failed with set | ⟨f,member,speaks⟩
    · exact set (given.symm.trans none)
    · exact working.held.unspoken executed member speaks
  have quiet (none : e = .none) : s.shared.source = [] := by
    rcases working.answers.ended (working.held.ended_some some executed) with empty | ⟨i,inside,y,failed⟩
    · exact empty
    · exact absurd failed (calm none i inside y)
  have finishes : (finished N records ++ s.shared.source).Perm source := by
    rw [all]
    exact working.given
  refine ⟨finishes,⟨fun none i inside x member y raised => ?_,fun silent => ?_⟩,fun none => ?_,fun y set => ?_⟩
  · have own := (keep.streams i inside).finished x member
    cases thrown : x.exceptionPtr with
    | none => exact own.2 thrown y raised
    | some z => exact calm none i inside z ⟨x,member,thrown⟩
  · by_contra set
    obtain ⟨y,set⟩ := Option.ne_none_iff_exists'.mp set
    obtain ⟨i,inside,failed⟩ := working.answers.given y (given.symm.trans set)
    obtain ⟨x,member,raised⟩ := tells i inside y failed
    exact silent i inside x member y raised
  · rw [quiet none,List.append_nil] at finishes
    exact finishes
  · obtain ⟨i,inside,failed⟩ := working.answers.given y (given.symm.trans set)
    exact ⟨i,inside,tells i inside y failed⟩

def throwingFilter : Job Nat Unit Nat where
  filters := [⟨0,.threadUnsafe,[],[],fun _ index _ => ⟨[],true,if index = 3 then some 7 else none⟩⟩]
  producers := []
  paths := [[0]]

def throwingFilterStreams : List (Nat × Nat) :=
  turns [(39,0),(1,6),(5,7),(3,5),(3,8),(3,4),(2,9),(16,10),(1,13),(5,14),(3,12),(3,15),(3,11),(2,16),(4,17),
    (1,3),(5,18),(3,2),(3,19),(3,1),(2,20),(3,21),(2,22),(3,0)]

set_option maxRecDepth 4096 in
/-- The filter throws in event 3. -/
theorem processAll_reports_throwingFilter : ∃ s records,
    execute (nextRecorded throwingFilter 2) (initial Nat Unit Nat 2 [3,4,5],noRecords Nat Unit Nat)
      throwingFilterStreams = some (s,records) ∧ s.shared.main = .returned (some 7) ∧
    ∃ i < 2, ∃ x ∈ (records i).2.finished, Raised x.log 7 := by
  have ran : (execute (nextRecorded throwingFilter 2) (initial Nat Unit Nat 2 [3,4,5],noRecords Nat Unit Nat)
      throwingFilterStreams).map (fun s => decide (s.1.shared.main = .returned (some 7))) = some true := by
    decide +kernel
  obtain ⟨⟨s,records⟩,ran,thrown⟩ := Option.map_eq_some_iff.mp ran
  have returned := of_decide_eq_true thrown
  have reports := processAll_reports throwingFilter 2 (by decide) [3,4,5] s records
    (execute_reaches throwingFilterStreams (by decide +kernel) ran) (some 7) returned
  exact ⟨s,records,ran,returned,reports.2.2.2 7 rfl⟩

end ToyMtFramework.ProcessAll
