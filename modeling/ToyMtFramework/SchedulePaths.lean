import ToyMtFramework.ScheduleLog

/-! How far the paths of an event are, as its log has it. A path is at one place at a time: before
its `runAsync`, on its way to a filter, waiting for one, done with one, or about to report. What is
known at each place makes up the order of its requests and what it reports. -/
namespace ToyMtFramework.Schedule
open Activities Transition
open Loop (History)

variable {L D E : Type} [DecidableEq L] [DecidableEq D]

section Log
omit [DecidableEq L] [DecidableEq D]

def Entry.runs (p : Nat) : Entry L D E → Bool
  | .runAsync q => p = q
  | _ => false

def Entry.request (p : Nat) : Entry L D E → Option Nat
  | .requested q i => if p = q then some i else none
  | _ => none

def Entry.report (p : Nat) : Entry L D E → Option (Option E)
  | .reported q e => if p = q then some e else none
  | _ => none

def runs (p : Nat) (log : List (Entry L D E)) : Nat :=
  log.countP (Entry.runs p)

def requests (p : Nat) (log : List (Entry L D E)) : List Nat :=
  log.filterMap (Entry.request p)

def reports (p : Nat) (log : List (Entry L D E)) : List (Option E) :=
  log.filterMap (Entry.report p)

section Append
variable (p : Nat) (log es : List (Entry L D E))

@[simp] theorem runs_append : runs p (log ++ es) = runs p log + runs p es :=
  List.countP_append

@[simp] theorem requests_append : requests p (log ++ es) = requests p log ++ requests p es :=
  List.filterMap_append

@[simp] theorem reports_append : reports p (log ++ es) = reports p log ++ reports p es :=
  List.filterMap_append

@[simp] theorem runs_nil : runs p ([] : List (Entry L D E)) = 0 := rfl

@[simp] theorem requests_nil : requests p ([] : List (Entry L D E)) = [] := rfl

@[simp] theorem reports_nil : reports p ([] : List (Entry L D E)) = [] := rfl

end Append

def FilterFinished (job : Job L D E) (p i : Nat) (e : Option E) (log : List (Entry L D E)) : Prop :=
  ∃ label, (job.path p)[i]? = some label ∧ .finished (.filter label) e ∈ log

def FilterPassed (job : Job L D E) (p i : Nat) (log : List (Entry L D E)) : Prop :=
  ∃ label, (job.path p)[i]? = some label ∧ .finished (.filter label) none ∈ log ∧
    ∃ outcome, .performed (.filter label) outcome ∈ log ∧ outcome.keep = true ∧ outcome.thrown = none

/-- After `n` requests the path reports what the last of them gave. -/
def EndedWith (job : Job L D E) (p n : Nat) (e : Option E) (log : List (Entry L D E)) : Prop :=
  (n = 0 → e = none) ∧ ∀ i, n = i + 1 → FilterFinished job p i e log

structure PathLogged (job : Job L D E) (p : Nat) (log : List (Entry L D E)) : Prop where
  order : requests p log = List.range (requests p log).length
  inside : (requests p log).length ≤ (job.path p).length
  passed : ∀ before later i, log = before ++ .requested p (i + 1) :: later → FilterPassed job p i before
  stopped : ∀ before later e, log = before ++ .reported p e :: later → requests p later = []
  ended : ∀ e ∈ reports p log, EndedWith job p (requests p log).length e log
  once : runs p log ≤ 1 ∧ (reports p log).length ≤ runs p log

structure Going (p n : Nat) (log : List (Entry L D E)) : Prop where
  runs : runs p log = 1
  requests : requests p log = List.range n
  reports : reports p log = []

structure Unseen (sh : Shared L D E) (p : Nat) (log : List (Entry L D E)) : Prop where
  runs : runs p log = 0
  requests : requests p log = []
  reports : reports p log = []
  blank : sh.exceptionPtr (.nextFilter p) = none

structure AwaitsFilter (job : Job L D E) (sh : Shared L D E) (p : Nat) (w : Wrapper L D)
    (log : List (Entry L D E)) : Prop where
  going : Going p (sh.index p + 1) log
  filter : ∃ label, (job.path p)[sh.index p]? = some label ∧ w = .filter label
  blank : sh.exceptionPtr (.nextFilter p) = none

structure Answered (job : Job L D E) (sh : Shared L D E) (p : Nat) (log : List (Entry L D E)) : Prop where
  going : Going p (sh.index p + 1) log
  finished : FilterFinished job p (sh.index p) (sh.exceptionPtr (.nextFilter p)) log

section Extend
variable {job : Job L D E} {sh after : Shared L D E} {log es : List (Entry L D E)} {p i n : Nat}
  {e : Option E}

theorem FilterFinished.extend (finished : FilterFinished job p i e log) :
    FilterFinished job p i e (log ++ es) := by
  obtain ⟨label,at_i,member⟩ := finished
  exact ⟨label,at_i,mem_extended member⟩

theorem FilterPassed.extend (passed : FilterPassed job p i log) : FilterPassed job p i (log ++ es) := by
  obtain ⟨label,at_i,member,outcome,performed,kept⟩ := passed
  exact ⟨label,at_i,mem_extended member,outcome,mem_extended performed,kept⟩

theorem EndedWith.extend (ended : EndedWith job p n e log) : EndedWith job p n e (log ++ es) :=
  ⟨ended.1,fun i last => (ended.2 i last).extend⟩

/-- A step that says nothing of a path, and leaves alone what belongs to it. -/
structure Aside (p : Nat) (sh after : Shared L D E) (es : List (Entry L D E)) : Prop where
  runs : runs p es = 0
  requests : requests p es = []
  reports : reports p es = []
  index : after.index p = sh.index p
  exceptionPtr : after.exceptionPtr (.nextFilter p) = sh.exceptionPtr (.nextFilter p)

theorem Going.aside (going : Going p n log) (aside : Aside p sh after es) :
    Going p n (log ++ es) := by
  constructor
  · rw [runs_append,going.runs,aside.runs]
  · rw [requests_append,going.requests,aside.requests,List.append_nil]
  · rw [reports_append,going.reports,aside.reports,List.append_nil]

theorem Unseen.aside (unseen : Unseen sh p log) (aside : Aside p sh after es) :
    Unseen after p (log ++ es) := by
  constructor
  · rw [runs_append,unseen.runs,aside.runs]
  · rw [requests_append,unseen.requests,aside.requests,List.append_nil]
  · rw [reports_append,unseen.reports,aside.reports,List.append_nil]
  · rw [aside.exceptionPtr,unseen.blank]

theorem AwaitsFilter.aside {w : Wrapper L D} (awaits : AwaitsFilter job sh p w log)
    (aside : Aside p sh after es) : AwaitsFilter job after p w (log ++ es) := by
  obtain ⟨going,filter,blank⟩ := awaits
  constructor
  · rw [aside.index]
    exact going.aside aside
  · rw [aside.index]
    exact filter
  · rw [aside.exceptionPtr,blank]

theorem Answered.aside (answered : Answered job sh p log)
    (aside : Aside p sh after es) : Answered job after p (log ++ es) := by
  obtain ⟨going,finished⟩ := answered
  constructor
  · rw [aside.index]
    exact going.aside aside
  · rw [aside.index,aside.exceptionPtr]
    exact finished.extend

/-- An entry of a log to which one was added is the new one or an old one. -/
theorem split_last {entry added : Entry L D E} {before later : List (Entry L D E)}
    (split : log ++ [added] = before ++ entry :: later) :
    (added = entry ∧ later = [] ∧ log = before) ∨
      ∃ others, later = others ++ [added] ∧ log = before ++ entry :: others := by
  rcases later.eq_nil_or_concat with rfl | ⟨others,last,rfl⟩
  · obtain ⟨equal,same⟩ := List.append_inj' split rfl
    exact Or.inl ⟨by simpa using same,rfl,equal⟩
  · rw [List.concat_eq_append,← List.cons_append,← List.append_assoc] at split
    obtain ⟨equal,same⟩ := List.append_inj' split rfl
    obtain rfl : added = last := by simpa using same
    exact Or.inr ⟨others,List.concat_eq_append,equal⟩

/-- An entry that is not of the path changes nothing. -/
theorem PathLogged.extend (logged : PathLogged job p log) {added : Entry L D E}
    (unseen : runs p [added] = 0) (unrequested : requests p [added] = []) (unreported : reports p [added] = []) :
    PathLogged job p (log ++ [added]) := by
  obtain ⟨order,inside,passed,stopped,ended,once⟩ := logged
  have runs : runs p (log ++ [added]) = runs p log := by rw [runs_append,unseen,Nat.add_zero]
  have requests : requests p (log ++ [added]) = requests p log := by
    rw [requests_append,unrequested,List.append_nil]
  have reports : reports p (log ++ [added]) = reports p log := by
    rw [reports_append,unreported,List.append_nil]
  refine ⟨by rw [requests]; exact order,by rw [requests]; exact inside,?_,?_,?_,by rw [runs,reports]; exact once⟩
  · intro before later i split
    rcases split_last split with ⟨rfl,_,_⟩ | ⟨others,_,earlier⟩
    · simp [Schedule.requests,Entry.request] at unrequested
    · exact passed before others i earlier
  · intro before later e split
    rcases split_last split with ⟨rfl,_,_⟩ | ⟨others,rfl,earlier⟩
    · simp [Schedule.reports,Entry.report] at unreported
    · rw [requests_append,stopped before others e earlier,unrequested]
      rfl
  · intro e member
    rw [reports] at member
    rw [requests]
    exact (ended e member).extend

/-- The path requests its next filter. -/
theorem PathLogged.request (logged : PathLogged job p log) (going : Going p i log)
    (inside : i < (job.path p).length) (passed : ∀ j, i = j + 1 → FilterPassed job p j log) :
    PathLogged job p (log ++ [.requested p i]) := by
  have all : requests p (log ++ [.requested p i]) = List.range (i + 1) := by
    rw [requests_append,going.requests,List.range_succ]
    simp [requests,Entry.request]
  have none : reports p (log ++ [.requested p i]) = [] := by
    rw [reports_append,going.reports]
    simp [reports,Entry.report]
  have once : runs p (log ++ [.requested p i]) = 1 := by
    rw [runs_append,going.runs]
    simp [runs,Entry.runs]
  refine ⟨by rw [all,List.length_range],by rw [all,List.length_range]; exact inside,?_,?_,?_,?_⟩
  · intro before later j split
    rcases split_last split with ⟨same,_,rfl⟩ | ⟨others,_,earlier⟩
    · cases same
      exact passed j rfl
    · exact logged.passed before others j earlier
  · intro before later e split
    have reported : e ∈ reports p (log ++ [.requested p i]) := by
      rw [split]
      exact List.mem_filterMap.mpr ⟨.reported p e,by simp,by simp [Entry.report]⟩
    rw [none] at reported
    cases reported
  · rw [none]
    simp
  · rw [none,once]
    simp

/-- The path reports. -/
theorem PathLogged.report (logged : PathLogged job p log) (going : Going p n log)
    (inside : n ≤ (job.path p).length) (ended : EndedWith job p n e log) :
    PathLogged job p (log ++ [.reported p e]) := by
  have all : requests p (log ++ [.reported p e]) = List.range n := by
    rw [requests_append,going.requests]
    simp [requests,Entry.request]
  have only : reports p (log ++ [.reported p e]) = [e] := by
    rw [reports_append,going.reports]
    simp [reports,Entry.report]
  have once : runs p (log ++ [.reported p e]) = 1 := by
    rw [runs_append,going.runs]
    simp [runs,Entry.runs]
  refine ⟨by rw [all,List.length_range],by rw [all,List.length_range]; exact inside,?_,?_,?_,?_⟩
  · intro before later j split
    rcases split_last split with ⟨same,_,_⟩ | ⟨others,_,earlier⟩
    · cases same
    · exact logged.passed before others j earlier
  · intro before later x split
    rcases split_last split with ⟨_,rfl,_⟩ | ⟨others,_,earlier⟩
    · rfl
    · have reported : x ∈ reports p log := by
        rw [earlier]
        exact List.mem_filterMap.mpr ⟨.reported p x,by simp,by simp [Entry.report]⟩
      rw [going.reports] at reported
      cases reported
  · intro x member
    rw [only,List.mem_singleton] at member
    rw [all,List.length_range,member]
    exact ended.extend
  · rw [only,once]
    simp

/-- The path begins. -/
theorem PathLogged.begin (logged : PathLogged job p log) (unseen : Unseen sh p log) :
    PathLogged job p (log ++ [.runAsync p]) := by
  have none : requests p (log ++ [.runAsync p]) = [] := by
    rw [requests_append,unseen.requests]
    simp [requests,Entry.request]
  have silent : reports p (log ++ [.runAsync p]) = [] := by
    rw [reports_append,unseen.reports]
    simp [reports,Entry.report]
  have once : runs p (log ++ [.runAsync p]) = 1 := by
    rw [runs_append,unseen.runs]
    simp [runs,Entry.runs]
  refine ⟨by rw [none]; rfl,by rw [none]; exact Nat.zero_le _,?_,?_,by simp [silent],by simp [silent,once]⟩
  · intro before later j split
    rcases split_last split with ⟨same,_,_⟩ | ⟨others,_,earlier⟩
    · cases same
    · exact logged.passed before others j earlier
  · intro before later e split
    rcases split_last split with ⟨same,_,_⟩ | ⟨others,rfl,earlier⟩
    · cases same
    · rw [requests_append,logged.stopped before others e earlier]
      simp [requests,Entry.request]

end Extend
end Log

def Placed (job : Job L D E) (sh : Shared L D E) (log : List (Entry L D E)) : Frame L D E → Prop
  | .runPaths => ∀ p < job.paths.length, Unseen sh p log
  | .launch ps => ∀ p ∈ ps, Unseen sh p log
  | .runAsync p => Unseen sh p log
  | .runFilterAsync p i => Going p i log ∧ i < (job.path p).length ∧
    (∀ j, i = j + 1 → FilterPassed job p j log) ∧ sh.exceptionPtr (.nextFilter p) = none
  | .doWorkAsync w (.nextFilter p) | .node (.waitingTasks w) (.nextFilter p) => AwaitsFilter job sh p w log
  | .doneWaitingTask (.nextFilter p) e => Going p (sh.index p + 1) log ∧
    FilterFinished job p (sh.index p) e log ∧ sh.exceptionPtr (.nextFilter p) = none
  | .decrement (.nextFilter p) | .execute (.nextFilter p) => Answered job sh p log
  | .filterFinished p i e => Going p (i + 1) log ∧ FilterFinished job p i e log ∧
    sh.exceptionPtr (.nextFilter p) = e
  | .doneWaiting (.callback p) e => ∃ n, Going p n log ∧ n ≤ (job.path p).length ∧ EndedWith job p n e log
  | _ => True

def position (n p : Nat) (f : Frame L D E) : Nat :=
  pending n p f + owns (.nextFilter p) f + acting p f

section Steps
variable {job : Job L D E} {sh : Shared L D E} {f : Frame L D E} {r : Reaction (Shared L D E) (Frame L D E)}
  {rest : Multiset (Frame L D E)} {log es : List (Entry L D E)} {p i n : Nat} {e : Option E}

theorem position_pending (waits : 0 < pending n p f) : 0 < position n p f := by
  unfold position
  omega

theorem position_owns (holds : 0 < owns (.nextFilter p) f) : 0 < position n p f := by
  unfold position
  omega

theorem position_acting (acts : 0 < acting p f) : 0 < position n p f := by
  unfold position
  omega

theorem aside_react (logs : Logs job sh f r es) (away : position n p f = 0) : Aside p sh r.shared es := by
  cases logs with
  | silent _ _ reacts silent _ =>
    cases reacts with
    | runFilter q i label fatal at_i =>
      have other : p ≠ q := by
        rintro rfl
        simp [position,acting] at away
      constructor <;> simp [Shared.hold,Shared.setIndex,other]
    | doneWaitingTask t e =>
      have other : .nextFilter p ≠ t := by
        rintro rfl
        simp [position,owns] at away
      constructor <;> simp [Shared.dependentTaskFailed,other]
    | _ => exact ⟨rfl,rfl,rfl,rfl,rfl⟩
  | runAsync q _ reacts =>
    have other : p ≠ q := by
      rintro rfl
      simp [position,pending] at away
    cases reacts <;> constructor <;> simp [runs,requests,reports,Entry.runs,Entry.request,Entry.report,
      Shared.setList,other]
  | requested q i label fatal at_i =>
    have other : p ≠ q := by
      rintro rfl
      simp [position,acting] at away
    constructor <;> simp [runs,requests,reports,Entry.runs,Entry.request,Entry.report,Shared.hold,
      Shared.setIndex,other]
  | reported q e =>
    have other : p ≠ q := by
      rintro rfl
      simp [position,acting] at away
    constructor <;> simp [runs,requests,reports,Entry.runs,Entry.request,Entry.report,Shared.setList,other]
  | performed w values seed outcome performed => exact ⟨rfl,rfl,rfl,rfl,rfl⟩
  | finished w e => exact ⟨rfl,rfl,rfl,rfl,rfl⟩

/-- What is known at a frame stays so while its path is left alone. -/
theorem Placed.aside {g : Frame L D E} {after : Shared L D E} (placed : Placed job sh log g)
    (aside : ∀ p, 0 < position job.paths.length p g → Aside p sh after es) : Placed job after (log ++ es) g := by
  unfold Placed at placed ⊢
  split at placed
  · exact fun p inside => (placed p inside).aside (aside p (position_pending (by simp [pending,inside])))
  · rename_i ps
    intro p member
    have counted : 0 < ps.count p := List.count_pos_iff.mpr member
    exact (placed p member).aside (aside p (position_pending counted))
  · exact placed.aside (aside _ (position_pending (by simp [pending])))
  · rename_i p i
    have apart := aside p (position_acting (by simp [acting]))
    obtain ⟨going,inside,passed,blank⟩ := placed
    exact ⟨going.aside apart,inside,fun j last => (passed j last).extend,by rw [apart.exceptionPtr,blank]⟩
  · exact placed.aside (aside _ (position_owns (by simp [owns])))
  · exact placed.aside (aside _ (position_owns (by simp [owns])))
  · rename_i p e
    have apart := aside p (position_owns (by simp [owns]))
    obtain ⟨going,finished,blank⟩ := placed
    rw [apart.index,apart.exceptionPtr]
    exact ⟨going.aside apart,finished.extend,blank⟩
  · exact placed.aside (aside _ (position_owns (by simp [owns])))
  · exact placed.aside (aside _ (position_acting (by simp [acting])))
  · rename_i p i e
    have apart := aside p (position_acting (by simp [acting]))
    obtain ⟨going,finished,given⟩ := placed
    exact ⟨going.aside apart,finished.extend,by rw [apart.exceptionPtr,given]⟩
  · rename_i p e
    have apart := aside p (position_acting (by simp [acting]))
    obtain ⟨n,going,inside,ended⟩ := placed
    exact ⟨n,going.aside apart,inside,ended.extend⟩
  · trivial

/-- The filter that a path waits for is done, and the path's task is told how. -/
theorem AwaitsFilter.answered {w : Wrapper L D} (awaits : AwaitsFilter job sh p w log) (told : Told sh log)
    (settled : (sh.list (.waitingTasks w)).waiting = false) : Going p (sh.index p + 1) log ∧
      FilterFinished job p (sh.index p) (sh.list (.waitingTasks w)).exceptionPtr log ∧
      sh.exceptionPtr (.nextFilter p) = none := by
  obtain ⟨going,⟨label,at_i,rfl⟩,blank⟩ := awaits
  exact ⟨going,⟨label,at_i,told.finished.mpr ⟨settled,rfl⟩⟩,blank⟩

/-- A path goes from one place to the next. -/
theorem Placed.silent (placed : Placed job sh log f) (right : ModulesRight job sh (f ::ₘ rest) log)
    (sourced : Sourced job f) (reacts : Reacts job sh f r) (silent : speaks f = false)
    (unrequested : ∀ p i, f = .runFilterAsync p i → sh.fatal = true) :
    ∀ g ∈ r.frames, Placed job r.shared log g := by
  cases reacts with
  | runPaths nonempty =>
    intro g member
    obtain rfl : g = .launch (List.range job.paths.length) := by simpa using member
    intro p member
    obtain ⟨runs,requests,reports,blank⟩ := placed p (List.mem_range.mp member)
    exact ⟨runs,requests,reports,blank⟩
  | launch p ps =>
    intro g member
    have unseen {q : Nat} (inside : q ∈ p :: ps) : Unseen (sh.hold .allPathsDone) q log := by
      obtain ⟨runs,requests,reports,blank⟩ := placed q inside
      exact ⟨runs,requests,reports,blank⟩
    rcases (by simpa using member : g = .runAsync p ∨ g = .launch ps) with rfl | rfl
    · exact unseen List.mem_cons_self
    · exact fun q inside => unseen (List.mem_cons_of_mem p inside)
  | runFatal p i fatal =>
    intro g member
    obtain rfl : g = .doneWaiting (.callback p) none := by simpa using member
    obtain ⟨going,inside,passed,_⟩ := placed
    refine ⟨i,going,by omega,fun _ => rfl,fun j last => ?_⟩
    obtain ⟨label,at_j,finished,_⟩ := passed j last
    exact ⟨label,at_j,finished⟩
  | runFilter p i label fatal at_i =>
    rw [unrequested p i rfl] at fatal
    cases fatal
  | add w t known waiting =>
    intro g member
    rcases (by simpa using member : g = .startWork w (sh.resets w) ∨ g = .node (.waitingTasks w) t) with rfl | rfl
    · trivial
    · cases t with
      | nextFilter p =>
        obtain ⟨going,filter,blank⟩ := placed
        exact ⟨going,filter,blank⟩
      | _ => trivial
  | addLate w t known waiting =>
    intro g member
    rcases (by simpa using member : g = .doneWaitingTask t (sh.list (.waitingTasks w)).exceptionPtr ∨
      g = .startWork w (sh.resets w)) with rfl | rfl
    · cases t with
      | nextFilter p =>
        have answered := AwaitsFilter.answered placed right.told waiting
        exact answered
      | _ => trivial
    · trivial
  | doneWaitingTask t e =>
    intro g member
    obtain rfl : g = .decrement t := by simpa using member
    cases t with
    | nextFilter p =>
      obtain ⟨going,finished,blank⟩ := placed
      refine ⟨going,?_⟩
      simpa [Shared.dependentTaskFailed,blank] using finished
    | _ => trivial
  | decrementLast t last =>
    intro g member
    obtain rfl : g = .execute t := by simpa using member
    cases t with
    | nextFilter p =>
      obtain ⟨going,finished⟩ := placed
      exact ⟨going,finished⟩
    | _ => trivial
  | node l t waiting =>
    intro g member
    obtain rfl : g = .doneWaitingTask t (sh.list l).exceptionPtr := by simpa using member
    cases t with
    | nextFilter p =>
      cases l with
      | waitingTasks w => exact AwaitsFilter.answered placed right.told waiting
      | callback q => cases sourced.2
    | _ => trivial
  | executeFilter p =>
    intro g member
    obtain rfl : g = .filterFinished p (sh.index p) (sh.exceptionPtr (.nextFilter p)) := by simpa using member
    obtain ⟨going,finished⟩ := placed
    exact ⟨going,finished,rfl⟩
  | filterPassed p i label at_i fatal kept more =>
    intro g member
    obtain rfl : g = .runFilterAsync p (i + 1) := by simpa using member
    obtain ⟨going,⟨other,at_other,finished⟩,blank⟩ := placed
    obtain rfl : other = label := Option.some.inj (at_other.symm.trans at_i)
    obtain ⟨_,outcome,performed⟩ := right.kept other kept
    refine ⟨going,more,fun j last => ?_,blank⟩
    obtain rfl : i = j := by omega
    exact ⟨other,at_i,finished,outcome,performed⟩
  | filterStopped p i e label at_i stopped =>
    intro g member
    obtain rfl : g = .doneWaiting (.callback p) e := by simpa using member
    obtain ⟨going,finished,_⟩ := placed
    obtain ⟨inside,_⟩ := List.getElem?_eq_some_iff.mp at_i
    refine ⟨i + 1,going,inside,fun zero => by omega,fun j last => ?_⟩
    obtain rfl : i = j := by omega
    exact finished
  | runEmpty _ _ => cases silent
  | runAsync _ _ => cases silent
  | body _ _ _ _ _ => cases silent
  | doneWaiting _ _ => cases silent
  | _ => simp [Placed]

theorem Placed.react (placed : Placed job sh log f) (right : ModulesRight job sh (f ::ₘ rest) log)
    (sourced : Sourced job f) (logs : Logs job sh f r es) : ∀ g ∈ r.frames, Placed job r.shared (log ++ es) g := by
  cases logs with
  | silent _ _ reacts silent unrequested =>
    rw [List.append_nil]
    exact placed.silent right sourced reacts silent unrequested
  | runAsync p _ reacts =>
    have going : Going p 0 (log ++ [.runAsync p]) := by
      constructor
      · rw [runs_append,placed.runs]
        simp [runs,Entry.runs]
      · rw [requests_append,placed.requests]
        simp [requests,Entry.request]
      · rw [reports_append,placed.reports]
        simp [reports,Entry.report]
    have blank := placed.blank
    cases reacts with
    | runEmpty _ empty =>
      intro g member
      rcases (by simpa using member : g = .doneWaiting (.callback p) none ∨
        g = .node (.callback p) .allPathsDone) with rfl | rfl
      · exact ⟨0,going,Nat.zero_le _,fun _ => rfl,fun i last => by omega⟩
      · trivial
    | runAsync _ nonempty =>
      intro g member
      rcases (by simpa using member : g = .runFilterAsync p 0 ∨
        g = .node (.callback p) .allPathsDone) with rfl | rfl
      · exact ⟨going,List.length_pos_iff.mpr nonempty,fun i last => by omega,blank⟩
      · trivial
  | requested p i label fatal at_i =>
    intro g member
    obtain rfl : g = .doWorkAsync (.filter label) (.nextFilter p) := by simpa using member
    obtain ⟨going,inside,_,blank⟩ := placed
    refine ⟨?_,⟨label,by simpa [Shared.hold,Shared.setIndex] using at_i,rfl⟩,blank⟩
    constructor
    · rw [runs_append,going.runs]
      simp [runs,Entry.runs]
    · rw [requests_append,going.requests]
      simp [requests,Entry.request,Shared.hold,Shared.setIndex,List.range_succ]
    · rw [reports_append,going.reports]
      simp [reports,Entry.report]
  | performed w values seed outcome performed => simp [Placed]
  | finished w e => simp
  | reported p e => simp

theorem PathLogged.react (logged : ∀ p, PathLogged job p log) (placed : Placed job sh log f)
    (logs : Logs job sh f r es) (p : Nat) : PathLogged job p (log ++ es) := by
  cases logs with
  | silent _ _ _ _ _ =>
    rw [List.append_nil]
    exact logged p
  | runAsync q _ _ =>
    by_cases same : p = q
    · subst q
      exact (logged p).begin placed
    · exact (logged p).extend (by simp [runs,Entry.runs,same]) rfl rfl
  | requested q i label fatal at_i =>
    by_cases same : p = q
    · subst q
      obtain ⟨going,inside,passed,_⟩ := placed
      exact (logged p).request going inside passed
    · exact (logged p).extend rfl (by simp [requests,Entry.request,same]) rfl
  | reported q e =>
    by_cases same : p = q
    · subst q
      obtain ⟨n,going,inside,ended⟩ := placed
      exact (logged p).report going inside ended
    · exact (logged p).extend rfl rfl (by simp [reports,Entry.report,same])
  | performed w values seed outcome performed => exact (logged p).extend rfl rfl rfl
  | finished w e => exact (logged p).extend rfl rfl rfl

structure PathsRight (job : Job L D E) (sh : Shared L D E) (bag : Multiset (Frame L D E))
    (log : List (Entry L D E)) : Prop where
  placed : ∀ f ∈ bag, Placed job sh log f
  logged : ∀ p, PathLogged job p log
  runs : ∀ p, runs p log + weigh (pending job.paths.length p) bag = if p < job.paths.length then 1 else 0
  reports : ∀ p, (reports p log).length = if weigh (pending job.paths.length p) bag = 0 ∧ p < job.paths.length
    then sh.settled (.callback p) else 0
  single : ∀ p, sh.refCount (.nextFilter p) ≤ 1

/-- A path is at no more than one place. -/
theorem position_single {bag : Multiset (Frame L D E)} (counts : Counts job sh bag)
    (single : sh.refCount (.nextFilter p) ≤ 1) : weigh (position job.paths.length p) bag ≤ 1 := by
  have path := counts.paths p
  have owners := counts.owners (.nextFilter p)
  have split : weigh (position job.paths.length p) bag = weigh (pending job.paths.length p) bag +
      weigh (owns (.nextFilter p)) bag + weigh (acting p) bag := by
    rw [← weigh_sum,← weigh_sum]
    rfl
  rw [split,← owners]
  split_ifs at path <;> omega

theorem single_react (counts : Counts job sh (f ::ₘ rest)) (single : sh.refCount (.nextFilter p) ≤ 1)
    (reacts : Reacts job sh f r) : r.shared.refCount (.nextFilter p) ≤ 1 := by
  cases reacts with
  | runFilter q i label fatal at_i =>
    by_cases same : p = q
    · subst q
      have path := counts.paths p
      rw [weigh_cons (acting p),acting,if_pos rfl] at path
      have free : sh.refCount (.nextFilter p) = 0 := by split_ifs at path <;> omega
      simp [Shared.hold,Shared.setIndex,free]
    · simpa [Shared.hold,Shared.setIndex,same] using single
  | decrementLast t last | decrement t more => exact (Nat.sub_le _ _).trans single
  | _ => simpa [Shared.hold,Shared.setList,Shared.request,Shared.start,Shared.dependentTaskFailed,
      Shared.fail,Shared.finish] using single

/-- A path waits to be launched as long as its `runAsync` is not called. -/
theorem pending_react (logs : Logs job sh f r es) (p : Nat) : runs p es +
    weigh (pending job.paths.length p) r.frames = pending job.paths.length p f := by
  cases logs with
  | silent _ _ reacts silent _ =>
    cases reacts with
    | runEmpty _ _ => cases silent
    | runAsync _ _ => cases silent
    | body _ _ _ _ _ => cases silent
    | doneWaiting _ _ => cases silent
    | runNoPaths empty => simp [pending,empty]
    | launch q qs =>
      by_cases same : p = q
      · simp [pending,same,Nat.add_comm]
      · simp [pending,same,Ne.symm same]
    | _ => simp [pending,List.count_range]
  | runAsync q _ reacts => cases reacts <;> simp [pending,runs,Entry.runs]
  | _ => simp [pending,runs,Entry.runs]

theorem callback_react (logs : Logs job sh f r es) (p : Nat) (unrun : runs p es = 0)
    (unreported : reports p es = []) : r.shared.list (.callback p) = sh.list (.callback p) := by
  cases logs with
  | silent _ _ reacts silent _ =>
    cases reacts with
    | runEmpty _ _ => cases silent
    | runAsync _ _ => cases silent
    | body _ _ _ _ _ => cases silent
    | doneWaiting _ _ => cases silent
    | _ => rfl
  | runAsync q _ reacts =>
    have other : p ≠ q := by
      rintro rfl
      simp [runs,Entry.runs] at unrun
    cases reacts <;> simp [Shared.setList,other]
  | reported q e =>
    have other : p ≠ q := by
      rintro rfl
      simp [reports,Entry.report] at unreported
    simp [Shared.setList,other]
  | requested q i label fatal at_i => rfl
  | performed w values seed outcome performed => rfl
  | finished w e => simp [Shared.setList]

/-- A path has reported if and only if its callback is done. -/
theorem reports_react (right : PathsRight job sh (f ::ₘ rest) log) (counts : Counts job sh (f ::ₘ rest))
    (logs : Logs job sh f r es) (p : Nat) : (reports p (log ++ es)).length =
      if weigh (pending job.paths.length p) (r.frames + rest) = 0 ∧ p < job.paths.length
        then r.shared.settled (.callback p) else 0 := by
  have before := right.reports p
  have path := counts.paths p
  have launched := pending_react logs p
  have aside (unrun : runs p es = 0) (unreported : reports p es = []) : (reports p (log ++ es)).length =
      if weigh (pending job.paths.length p) (r.frames + rest) = 0 ∧ p < job.paths.length
        then r.shared.settled (.callback p) else 0 := by
    rw [unrun,Nat.zero_add] at launched
    rw [reports_append,unreported,List.append_nil,before,weigh_cons,weigh_add,launched,Shared.settled,
      Shared.settled,callback_react logs p unrun unreported]
  cases logs with
  | silent _ _ reacts silent _ => exact aside rfl rfl
  | runAsync q _ reacts =>
    by_cases same : p = q
    · subst q
      rw [weigh_cons,pending,if_pos rfl] at before
      rw [reports_append,List.length_append,before,if_neg (by omega)]
      have opened : r.shared.settled (.callback p) = 0 := by
        cases reacts <;> simp [Shared.settled,Shared.setList]
      simp [reports,Entry.report,opened]
    · exact aside (by simp [runs,Entry.runs,same]) rfl
  | reported q e =>
    by_cases same : p = q
    · subst q
      rw [weigh_cons (acting p),acting,if_pos rfl] at path
      have inside : p < job.paths.length := by
        by_contra outside
        rw [if_neg outside] at path
        omega
      rw [if_pos inside] at path
      have free : weigh (pending job.paths.length p) rest = 0 ∧
          weigh (pending job.paths.length p) (.doneWaiting (.callback p) e ::ₘ rest) = 0 := by
        rw [weigh_cons] at path ⊢
        omega
      rw [if_pos ⟨free.2,inside⟩] at before path
      have unsettled : sh.settled (.callback p) = 0 := by omega
      rw [reports_append,List.length_append,before,unsettled]
      simp [reports,Entry.report,free.1,inside,Shared.settled,Shared.setList]
    · exact aside rfl (by simp [reports,Entry.report,same])
  | requested q i label fatal at_i => exact aside rfl rfl
  | performed w values seed outcome performed => exact aside rfl rfl
  | finished w e => exact aside rfl rfl

theorem PathsRight.react (right : PathsRight job sh (f ::ₘ rest) log)
    (modules : ModulesRight job sh (f ::ₘ rest) log) (round : Round job sh (f ::ₘ rest))
    (logs : Logs job sh f r es) : PathsRight job r.shared (r.frames + rest) (log ++ es) := by
  have counts := round.counts
  have placed := right.placed f (Multiset.mem_cons_self f rest)
  refine ⟨?_,PathLogged.react right.logged placed logs,?_,reports_react right counts logs,
    fun p => single_react counts (right.single p) logs.reacts⟩
  · intro g member
    rcases Multiset.mem_add.mp member with new | old
    · exact placed.react modules (round.sourced f (Multiset.mem_cons_self f rest)) logs g new
    · refine (right.placed g (Multiset.mem_cons_of_mem old)).aside fun p here => ?_
      have single := position_single counts (right.single p)
      have positive : 0 < weigh (position job.paths.length p) rest := weigh_pos old here
      rw [weigh_cons] at single
      exact aside_react logs (n := job.paths.length) (by omega)
  · intro p
    have before := right.runs p
    have launched := pending_react logs p
    rw [weigh_cons] at before
    rw [runs_append,weigh_add,← before]
    omega

end Steps
end ToyMtFramework.Schedule
