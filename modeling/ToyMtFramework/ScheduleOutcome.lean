import ToyMtFramework.ScheduleExceptions
import ToyMtFramework.ScheduleMeaning

/-! A round computes what its event means, in whatever order its frames act. A module is
settled with its one value, a path has passed the filters that keep the event, and
nothing is started that the event does not need. -/
namespace ToyMtFramework.Schedule
open Activities Transition

variable {L D E : Type} [DecidableEq L] [DecidableEq D] {job : Job L D E}

def Done (sh : Shared L D E) (w : Wrapper L D) : Prop :=
  (sh.list (.waitingTasks w)).waiting = false

section Meaning
variable (plain : job.Plain) (index : Nat) (sh : Shared L D E)

def Right : Wrapper L D → Prop
  | .filter label => sh.keep label = (job.outcome plain.acyclic index (.filter label)).keep
  | .producer label product =>
    sh.cache label product = ⟨job.value plain.acyclic index (.producer label product),true⟩

def Passed (p i : Nat) : Prop :=
  ∀ j < i, ∃ label, (job.path p)[j]? = some label ∧ Done sh (.filter label) ∧
    (job.outcome plain.acyclic index (.filter label)).keep = true

def Arrived (p i : Nat) : Prop :=
  Passed plain index sh p i ∧ ∃ label, (job.path p)[i]? = some label ∧ Done sh (.filter label)

def Ended (p : Nat) : Prop :=
  ∀ label ∈ job.reached plain.acyclic index (job.path p), Done sh (.filter label)

def Requests (w : Wrapper L D) (t : TaskId L D) : Prop :=
  ∀ p, t = .nextFilter p → Passed plain index sh p (sh.index p) ∧
    ∃ label, (job.path p)[sh.index p]? = some label ∧ w = .filter label

def Lawful : Frame L D E → Prop
  | .runFilterAsync p i => Passed plain index sh p i
  | .doWorkAsync w t => job.Needed plain.acyclic index w ∧ Requests plain index sh w t
  | .node (.waitingTasks w) t => Requests plain index sh w t
  | .startWork w _ | .prefetch w _ => job.Needed plain.acyclic index w
  | .doneWaitingTask t _ | .decrement t | .execute t =>
    ∀ p, t = .nextFilter p → Arrived plain index sh p (sh.index p)
  | .filterFinished p i _ => Arrived plain index sh p i
  | .body w gs values => ∃ before, job.getters w = before ++ gs ∧
    values = before.map (job.value plain.acyclic index)
  | .doneWaiting (.waitingTasks w) _ => Right plain index sh w
  | .doneWaiting (.callback p) _ => Ended plain index sh p
  | _ => True

end Meaning

def closing (w : Wrapper L D) : Frame L D E → Nat
  | .doneWaiting l _ => if .waitingTasks w = l then 1 else 0
  | _ => 0

/-- The frame holds the prefetch task of `w` for the sake of `g`. -/
def Awaits (w g : Wrapper L D) : Frame L D E → Prop
  | .doWorkAsync v t => v = g ∧ t = .runModule w
  | .node l t => l = .waitingTasks g ∧ t = .runModule w
  | .prefetch v gs => v = w ∧ g ∈ gs
  | _ => False

structure Meets (plain : job.Plain) (index : Nat) (sh : Shared L D E)
    (bag : Multiset (Frame L D E)) : Prop where
  eventIndex : sh.eventIndex = index
  fatal : sh.fatal = false
  quiet : ∀ e, ¬Thrown sh e
  frames : ∀ f ∈ bag, Lawful plain index sh f
  done : ∀ w, Done sh w → Right plain index sh w
  callbacks : ∀ p < job.paths.length, weigh (pending job.paths.length p) bag = 0 →
    (sh.list (.callback p)).waiting = false → Ended plain index sh p
  started : ∀ w, sh.workStarted w = true → job.Needed plain.acyclic index w
  inputs : ∀ w, sh.workStarted w = true → ∀ g ∈ job.getters w,
    Done sh g ∨ ∃ f ∈ bag, Awaits w g f
  ran : ∀ w, (sh.ran.map Run.wrapper).count w = weigh (closing w) bag + sh.settled (.waitingTasks w)

section Steps
variable {plain : job.Plain} {index : Nat} {sh : Shared L D E} {f : Frame L D E}
  {r : Reaction (Shared L D E) (Frame L D E)} {rest : Multiset (Frame L D E)}

theorem Done.react {w : Wrapper L D} (done : Done sh w) (reacts : Reacts job sh f r) :
    Done r.shared w := by
  unfold Done at done ⊢
  cases reacts with
  | runEmpty p | runAsync p => simpa [Shared.setList] using done
  | doneWaiting l e =>
    by_cases same : .waitingTasks w = l
    · simp [Shared.setList,same]
    · simpa [Shared.setList,same] using done
  | _ => exact done

theorem Passed.react {p i : Nat} (passed : Passed plain index sh p i) (reacts : Reacts job sh f r) :
    Passed plain index r.shared p i := by
  intro j before
  obtain ⟨label,at_j,done,kept⟩ := passed j before
  exact ⟨label,at_j,done.react reacts,kept⟩

/-- A path whose filter is done has arrived at it. -/
theorem Requests.arrived {w : Wrapper L D} {t : TaskId L D} (requests : Requests plain index sh w t)
    (done : Done sh w) {p : Nat} (task : t = .nextFilter p) : Arrived plain index sh p (sh.index p) := by
  obtain ⟨passed,label,at_i,rfl⟩ := requests p task
  exact ⟨passed,label,at_i,done⟩

theorem Arrived.react {p i : Nat} (arrived : Arrived plain index sh p i)
    (reacts : Reacts job sh f r) : Arrived plain index r.shared p i := by
  obtain ⟨passed,label,at_i,done⟩ := arrived
  exact ⟨passed.react reacts,label,at_i,done.react reacts⟩

theorem Ended.react {p : Nat} (ended : Ended plain index sh p) (reacts : Reacts job sh f r) :
    Ended plain index r.shared p :=
  fun label reached => (ended label reached).react reacts

/-- The index of a path stays while its next filter is being waited for. -/
theorem index_react (counts : Counts job sh (f ::ₘ rest)) (reacts : Reacts job sh f r)
    {g : Frame L D E} (member : g ∈ rest) {p : Nat}
    (busy : 0 < owns (.nextFilter p) g + acting p g) : r.shared.index p = sh.index p := by
  cases reacts with
  | runFilter q i label fatal at_i =>
    by_cases same : p = q
    · subst q
      have path := counts.paths p
      have owners := counts.owners (.nextFilter p)
      have busy : 0 < weigh (owns (.nextFilter p)) rest ∨ 0 < weigh (acting p) rest :=
        (Nat.add_pos_iff_pos_or_pos.mp busy).imp (weigh_pos member) (weigh_pos member)
      simp only [weigh_cons,owns,acting,if_true] at path owners
      split_ifs at path <;> omega
    · simp [Shared.hold,Shared.setIndex,same]
  | _ => rfl

theorem putAll_single (cache : L → D → DataCache) (label : L) (product : D) (x : Int) (other : L)
    (d : D) : putAll cache label [(product,x)] other d =
      if other = label ∧ d = product then ⟨x,true⟩ else cache other d := by
  by_cases same : other = label
  · subst other
    by_cases equal : d = product <;> simp [putAll,equal]
  · simp [putAll,same]

/-- The body of a module leaves everything else as it was. -/
theorem finish_other {v w : Wrapper L D} (known : (job.module v).isSome = true) (distinct : w ≠ v)
    (right : Right plain index sh w) (seed : Nat) (values : List Int) :
    Right plain index (sh.finish v (job.perform v seed index values)) w := by
  cases v with
  | filter label =>
    cases w with
    | filter other =>
      have labels : other ≠ label := fun same => distinct (by rw [same])
      simpa [Right,Shared.finish,plain.thrown,labels] using right
    | producer other d => exact right
  | producer label product =>
    cases w with
    | filter other => exact right
    | producer other d =>
      change putAll sh.cache label (job.perform (.producer label product) seed index values).puts
        other d = _
      rw [plain.puts known,putAll_single,if_neg]
      · exact right
      · rintro ⟨rfl,rfl⟩
        exact distinct rfl

/-- A body that has read what its getters mean does what its wrapper means. -/
theorem finish_self {w : Wrapper L D} (known : (job.module w).isSome = true) (seed : Nat) :
    Right plain index (sh.finish w (job.perform w seed index
      ((job.getters w).map (job.value plain.acyclic index)))) w := by
  rw [plain.perform_eq]
  cases w with
  | filter label => simp [Right,Shared.finish,plain.thrown,Job.outcome]
  | producer label product =>
    change putAll sh.cache label (job.perform (.producer label product) 0 index _).puts
      label product = _
    rw [plain.puts known,putAll_single,if_pos ⟨rfl,rfl⟩,value_eq]
    rfl

theorem Meets.working_started (counts : Counts job sh (f ::ₘ rest)) {w : Wrapper L D}
    (heavy : working w f = 1) : sh.workStarted w = true ∧ sh.refCount (.runModule w) = 0 ∧
      weigh (working w) rest = 0 ∧ ¬Done sh w := by
  have module := counts.modules w
  simp only [weigh_cons,heavy] at module
  unfold Done
  by_cases started : sh.workStarted w = true
  · rw [if_pos started] at module
    refine ⟨started,by omega,by omega,?_⟩
    intro done
    rw [Shared.settled,if_neg (by simp [done])] at module
    omega
  · rw [if_neg started] at module
    omega

theorem Right.react (meets : Meets plain index sh (f ::ₘ rest)) (counts : Counts job sh (f ::ₘ rest))
    (reacts : Reacts job sh f r) {w : Wrapper L D} (right : Right plain index sh w)
    (past : Done sh w ∨ ∃ e, .doneWaiting (.waitingTasks w) e ∈ rest) :
    Right plain index r.shared w := by
  cases reacts with
  | body v values seed outcome performed =>
    obtain ⟨started,_,alone,undone⟩ :=
      Meets.working_started counts (w := v) (f := .body v [] values) (by simp [working])
    have distinct : w ≠ v := by
      rintro rfl
      rcases past with done | ⟨e,member⟩
      · exact undone done
      · have positive : 0 < weigh (working w) rest := weigh_pos member (by simp [working])
        omega
    rw [performed,meets.eventIndex]
    exact finish_other (plain.needed_known (meets.started v started)) distinct right seed values
  | _ => cases w <;> exact right

/-- What the frames know of the state stays true when another frame acts. -/
theorem Lawful.react (meets : Meets plain index sh (f ::ₘ rest)) (counts : Counts job sh (f ::ₘ rest))
    (reacts : Reacts job sh f r) {g : Frame L D E} (member : g ∈ rest)
    (lawful : Lawful plain index sh g) : Lawful plain index r.shared g := by
  have requests {w : Wrapper L D} {t : TaskId L D} (owner : 0 < owns t g)
      (before : Requests plain index sh w t) : Requests plain index r.shared w t := by
    intro p task
    subst task
    rw [index_react counts reacts member (by omega)]
    obtain ⟨passed,next⟩ := before p rfl
    exact ⟨passed.react reacts,next⟩
  have arrives {t : TaskId L D} (busy : ∀ p, t = .nextFilter p → 0 < owns (.nextFilter p) g + acting p g)
      (before : ∀ p, t = .nextFilter p → Arrived plain index sh p (sh.index p)) :
      ∀ p, t = .nextFilter p → Arrived plain index r.shared p (r.shared.index p) := by
    intro p task
    rw [index_react counts reacts member (busy p task)]
    exact (before p task).react reacts
  cases g with
  | runFilterAsync p i =>
    have passed : Passed plain index sh p i := lawful
    exact passed.react reacts
  | doWorkAsync w t => exact ⟨lawful.1,requests (by simp [owns]) lawful.2⟩
  | node l t =>
    cases l with
    | waitingTasks w => exact requests (by simp [owns]) lawful
    | callback p => trivial
  | doneWaitingTask t e => exact arrives (fun p task => by simp [owns,acting,task]) lawful
  | decrement t => exact arrives (fun p task => by simp [owns,acting,task]) lawful
  | execute t => exact arrives (fun p task => by simp [owns,acting,task]) lawful
  | filterFinished p i e =>
    have arrived : Arrived plain index sh p i := lawful
    exact arrived.react reacts
  | doneWaiting l e =>
    cases l with
    | waitingTasks w => exact Right.react meets counts reacts lawful (Or.inr ⟨e,member⟩)
    | callback p =>
      have ended : Ended plain index sh p := lawful
      exact ended.react reacts
  | _ => exact lawful

omit [DecidableEq L] [DecidableEq D] in
theorem path_listed {p i : Nat} {label : L} (at_i : (job.path p)[i]? = some label) :
    job.path p ∈ job.paths := by
  unfold Job.path at at_i ⊢
  rw [List.getD_eq_getElem?_getD] at at_i ⊢
  cases found : job.paths[p]? with
  | none => simp [found] at at_i
  | some path => exact List.mem_of_getElem? found

theorem needed_getter (plain : job.Plain) {v w : Wrapper L D} (needed : job.Needed plain.acyclic index w)
    (getter : v ∈ job.getters w) : job.Needed plain.acyclic index v := by
  obtain ⟨path,listed,label,reached,depends⟩ := needed
  exact ⟨path,listed,label,reached,depends.tail getter⟩

theorem Passed.reached {p i : Nat} {label : L} (passed : Passed plain index sh p i)
    (at_i : (job.path p)[i]? = some label) :
    label ∈ job.reached plain.acyclic index (job.path p) := by
  refine mem_reached.mpr ⟨i,at_i,fun j before other at_j => ?_⟩
  obtain ⟨same,at_same,_,kept⟩ := passed j before
  obtain rfl : same = other := by simpa [at_same] using at_j
  exact kept

/-- A path has ended where a filter rejects the event or at its last filter. -/
theorem Arrived.ended {p i : Nat} (arrived : Arrived plain index sh p i)
    (stopped : ∀ label, (job.path p)[i]? = some label →
      (job.outcome plain.acyclic index (.filter label)).keep = false ∨ i + 1 = (job.path p).length) :
    Ended plain index sh p := by
  intro label reached
  obtain ⟨j,at_j,kept⟩ := mem_reached.mp reached
  obtain ⟨passed,last,at_i,done⟩ := arrived
  rcases Nat.lt_trichotomy j i with before | rfl | after
  · obtain ⟨same,at_same,done,_⟩ := passed j before
    obtain rfl : same = label := by simpa [at_same] using at_j
    exact done
  · obtain rfl : last = label := by simpa [at_i] using at_j
    exact done
  · have inside : j < (job.path p).length := (List.getElem?_eq_some_iff.mp at_j).1
    rcases stopped last at_i with rejected | finished
    · rw [kept i after last at_i] at rejected
      exact absurd rejected Bool.noConfusion
    · omega

/-- When the prefetch task of a module has no holder any more its inputs are there. -/
theorem Meets.inputs_done (meets : Meets plain index sh (f ::ₘ rest))
    (counts : Counts job sh (f ::ₘ rest)) {w : Wrapper L D} (heavy : working w f = 1)
    {g : Wrapper L D} (getter : g ∈ job.getters w) : Done sh g := by
  obtain ⟨started,unheld,_⟩ := Meets.working_started counts heavy
  rcases meets.inputs w started g getter with done | ⟨h,member,awaits⟩
  · exact done
  · have owner : 0 < owns (.runModule w) h := by
      cases h <;> simp_all [Awaits,owns]
    have held := counts.owned member owner
    omega

theorem Meets.get_eq (meets : Meets plain index sh (f ::ₘ rest)) {w g : Wrapper L D}
    (getter : g ∈ job.getters w) (done : Done sh g) :
    sh.get g = job.value plain.acyclic index g := by
  obtain ⟨m,_,h,_,rfl⟩ := getters_known job getter
  have right : sh.cache h.1 h.2 = ⟨job.value plain.acyclic index (.producer h.1 h.2),true⟩ :=
    meets.done _ done
  rw [Shared.get,right]

theorem lawful_frames (meets : Meets plain index sh (f ::ₘ rest)) (round : Round job sh (f ::ₘ rest))
    (honest : Honest sh (f ::ₘ rest)) (reacts : Reacts job sh f r) :
    ∀ g ∈ r.frames, Lawful plain index r.shared g := by
  have counts := round.counts
  have lawful := meets.frames f (Multiset.mem_cons_self f rest)
  have source := round.sourced f (Multiset.mem_cons_self f rest)
  have unfailed (e : E) (passed : f.exception = some e) : False :=
    meets.quiet e (honest.frames f (Multiset.mem_cons_self f rest) e passed)
  cases reacts with
  | runPaths nonempty => simp [Lawful]
  | runNoPaths empty => simp [Lawful]
  | launched => simp [Lawful]
  | launch p ps => simp [Lawful]
  | runEmpty p empty => simp [Lawful,Ended,empty,Job.reached]
  | runAsync p nonempty => simp [Lawful,Passed]
  | runFatal p i fatal => simp [meets.fatal] at fatal
  | runFilter p i label fatal at_i =>
    have passed : Passed plain index sh p i := lawful
    have needed : job.Needed plain.acyclic index (.filter label) :=
      ⟨_,path_listed at_i,label,passed.reached at_i,Relation.ReflTransGen.refl⟩
    have requests : Requests plain index ((sh.setIndex p i).hold (.nextFilter p)) (.filter label)
        (.nextFilter p) := by
      intro q same
      cases same
      have here : ((sh.setIndex p i).hold (.nextFilter p)).index p = i := by
        simp [Shared.hold,Shared.setIndex]
      rw [here]
      exact ⟨passed,label,at_i,rfl⟩
    simpa [Lawful] using And.intro needed requests
  | add w t known waiting =>
    obtain ⟨needed,requests⟩ := lawful
    have later : Requests plain index (sh.request w t) w t := requests
    simpa [Lawful] using And.intro needed later
  | addLate w t known waiting =>
    obtain ⟨needed,requests⟩ := lawful
    have later : Requests plain index (sh.request w t) w t := requests
    have arrived (p : Nat) (task : t = .nextFilter p) :
        Arrived plain index (sh.request w t) p ((sh.request w t).index p) := later.arrived waiting task
    simpa [Lawful] using And.intro arrived needed
  | startRefused w added started => simp
  | startWork w added started =>
    have needed : job.Needed plain.acyclic index w := lawful
    simpa [Lawful] using needed
  | prefetched w => simp [Lawful]
  | prefetch w g gs =>
    have needed : job.Needed plain.acyclic index w := lawful
    have getter : g ∈ job.getters w := source g List.mem_cons_self
    have other : Requests plain index (sh.hold (.runModule w)) g (.runModule w) := by
      intro p task
      cases task
    have below : job.Needed plain.acyclic index g := needed_getter plain needed getter
    simpa [Lawful] using And.intro (And.intro below other) needed
  | doneWaitingTask t e =>
    have arrived (p : Nat) (task : t = .nextFilter p) :
        Arrived plain index (sh.dependentTaskFailed t e) p ((sh.dependentTaskFailed t e).index p) :=
      lawful p task
    simpa [Lawful] using arrived
  | decrementLast t last =>
    have arrived (p : Nat) (task : t = .nextFilter p) :
        Arrived plain index (sh.drop t) p ((sh.drop t).index p) := lawful p task
    simpa [Lawful] using arrived
  | decrement t more => simp
  | node l t waiting =>
    cases l with
    | waitingTasks w =>
      have requests : Requests plain index sh w t := lawful
      have arrived (p : Nat) (task : t = .nextFilter p) : Arrived plain index sh p (sh.index p) :=
        requests.arrived waiting task
      simpa [Lawful] using arrived
    | callback q =>
      simp only [Sourced] at source
      simp [Lawful,source.2]
  | executeQueued w queue => simp [Lawful]
  | executeModule w queue => simp [Lawful]
  | executeFilter p =>
    have arrived : Arrived plain index sh p (sh.index p) := lawful p rfl
    simpa [Lawful] using arrived
  | executeFailed e failed => exact absurd (honest.tasks _ e failed) (meets.quiet e)
  | executeDone succeeded => simp [Lawful]
  | queued w e => simp [Lawful]
  | moduleFailed w e => exact (unfailed e rfl).elim
  | runModule w => simp [Lawful]
  | read w g gs values =>
    obtain ⟨before,getters,so_far⟩ := lawful
    have getter : g ∈ job.getters w := by simp [getters]
    have done : Done sh g := meets.inputs_done counts (by simp [working]) getter
    have read : ∃ before, job.getters w = before ++ gs ∧
        values ++ [sh.get g] = before.map (job.value plain.acyclic index) := by
      refine ⟨before ++ [g],by simp [getters],?_⟩
      simp [so_far,meets.get_eq getter done]
    simpa [Lawful] using read
  | body w values seed outcome performed =>
    obtain ⟨started,_⟩ := Meets.working_started counts (w := w) (f := .body w [] values) (by simp [working])
    obtain ⟨before,getters,values⟩ := lawful
    rw [List.append_nil] at getters
    have right : Right plain index (sh.finish w outcome) w := by
      rw [performed,meets.eventIndex,values,← getters]
      exact finish_self (plain.needed_known (meets.started w started)) seed
    simpa [Lawful] using right
  | doneWaiting l e => simp
  | filterPassed p i label at_i fatal kept more =>
    obtain ⟨passed,same,at_same,done⟩ := lawful
    obtain rfl : same = label := by simpa [at_same] using at_i
    have right : sh.keep same = (job.outcome plain.acyclic index (.filter same)).keep :=
      meets.done _ done
    have further : Passed plain index sh p (i + 1) := by
      intro j before
      rcases Nat.lt_succ_iff_lt_or_eq.mp before with before | rfl
      · exact passed j before
      · exact ⟨same,at_same,done,right ▸ kept⟩
    simpa [Lawful] using further
  | filterStopped p i e label at_i stopped =>
    have arrived : Arrived plain index sh p i := lawful
    have ended : Ended plain index sh p := by
      refine arrived.ended fun other at_other => ?_
      obtain rfl : label = other := by simpa [at_i] using at_other
      obtain ⟨_,same,at_same,done⟩ := arrived
      obtain rfl : same = label := by simpa [at_same] using at_i
      have right : sh.keep same = (job.outcome plain.acyclic index (.filter same)).keep :=
        meets.done _ done
      rcases stopped with failed | fatal | rejected | last
      · obtain ⟨x,given⟩ := Option.ne_none_iff_exists'.mp failed
        exact (unfailed x given).elim
      · simp [meets.fatal] at fatal
      · exact Or.inl (right ▸ rejected)
      · exact Or.inr last
    simpa [Lawful] using ended
  | callback e => simp

theorem inputs_react (meets : Meets plain index sh (f ::ₘ rest)) (reacts : Reacts job sh f r)
    (w : Wrapper L D) (started : r.shared.workStarted w = true) (g : Wrapper L D)
    (getter : g ∈ job.getters w) : Done r.shared g ∨ ∃ h ∈ r.frames + rest, Awaits w g h := by
  by_cases before : sh.workStarted w = true
  · rcases meets.inputs w before g getter with done | ⟨h,member,awaits⟩
    · exact Or.inl (done.react reacts)
    · rcases Multiset.mem_cons.mp member with rfl | other
      · cases reacts with
        | add v t known waiting =>
          obtain ⟨rfl,rfl⟩ := awaits
          exact Or.inr ⟨.node (.waitingTasks v) (.runModule w),by simp,rfl,rfl⟩
        | addLate v t known waiting =>
          obtain ⟨rfl,_⟩ := awaits
          exact Or.inl waiting
        | node l t waiting =>
          obtain ⟨rfl,_⟩ := awaits
          exact Or.inl waiting
        | prefetched v => simp [Awaits] at awaits
        | prefetch v first gs =>
          obtain ⟨rfl,listed⟩ := awaits
          rcases List.mem_cons.mp listed with rfl | listed
          · exact Or.inr ⟨.doWorkAsync g (.runModule v),by simp,rfl,rfl⟩
          · exact Or.inr ⟨.prefetch v gs,by simp,rfl,listed⟩
        | _ => simp [Awaits] at awaits
      · exact Or.inr ⟨h,Multiset.mem_add.mpr (Or.inr other),awaits⟩
  · cases reacts with
    | startWork v added fresh =>
      by_cases same : w = v
      · subst v
        exact Or.inr ⟨.prefetch w (job.getters w),by simp,rfl,getter⟩
      · simp [Shared.hold,Shared.start,same,before] at started
    | _ => exact absurd started before

theorem ran_counts (meets : Meets plain index sh (f ::ₘ rest)) (counts : Counts job sh (f ::ₘ rest))
    (honest : Honest sh (f ::ₘ rest)) (reacts : Reacts job sh f r) (w : Wrapper L D) :
    (r.shared.ran.map Run.wrapper).count w =
      weigh (closing w) (r.frames + rest) + r.shared.settled (.waitingTasks w) := by
  have before := meets.ran w
  cases reacts with
  | moduleFailed v e =>
    exact absurd (honest.frames _ (Multiset.mem_cons_self _ _) e rfl) (meets.quiet e)
  | doneWaiting l e =>
    have waiting := counts.closing_waiting (Multiset.mem_cons_self (.doneWaiting l e) rest)
    simp [closing,Shared.settled,Shared.setList,Function.update_apply] at before ⊢
    grind
  | _ =>
    simp [closing,Shared.settled,Shared.hold,Shared.drop,Shared.setList,Shared.setIndex,Shared.request,
      Shared.start,Shared.dependentTaskFailed,Shared.fail,Shared.finish,List.count_singleton]
      at before ⊢
    grind

theorem callbacks_ended (meets : Meets plain index sh (f ::ₘ rest)) (reacts : Reacts job sh f r)
    (p : Nat) (inside : p < job.paths.length)
    (opened : weigh (pending job.paths.length p) (r.frames + rest) = 0)
    (closed : (r.shared.list (.callback p)).waiting = false) : Ended plain index r.shared p := by
  have lawful := meets.frames f (Multiset.mem_cons_self f rest)
  have before := meets.callbacks p inside
  refine Ended.react (?_ : Ended plain index sh p) reacts
  cases reacts with
  | doneWaiting l e =>
    by_cases same : .callback p = l
    · subst l
      exact lawful
    · exact before (by simpa [pending] using opened) (by simpa [Shared.setList,same] using closed)
  | runEmpty q empty | runAsync q nonempty =>
    by_cases same : p = q
    · simp [Shared.setList,same] at closed
    · exact before (by simpa [pending,same] using opened) (by simpa [Shared.setList,same] using closed)
  | runPaths nonempty =>
    simp [pending,List.count_range,inside] at opened
  | launch q ps =>
    refine before ?_ closed
    simp [pending,List.count_cons,eq_comm (a := q)] at opened ⊢
    omega
  | runNoPaths empty => simp [empty] at inside
  | _ => exact before (by simpa [pending] using opened) closed

theorem Meets.react (meets : Meets plain index sh (f ::ₘ rest)) (round : Round job sh (f ::ₘ rest))
    (honest : Honest sh (f ::ₘ rest)) (reacts : Reacts job sh f r) :
    Meets plain index r.shared (r.frames + rest) := by
  have counts := round.counts
  have lawful := meets.frames f (Multiset.mem_cons_self f rest)
  refine ⟨?_,?_,?_,?_,?_,callbacks_ended meets reacts,?_,inputs_react meets reacts,
    ran_counts meets counts honest reacts⟩
  · cases reacts <;> exact meets.eventIndex
  · cases reacts with
    | executeFailed e failed => exact absurd (honest.tasks _ e failed) (meets.quiet e)
    | _ => exact meets.fatal
  · intro e thrown
    cases reacts with
    | body w values seed outcome performed =>
      obtain ⟨run,member,failed⟩ := thrown
      rcases List.mem_append.mp member with old | new
      · exact meets.quiet e ⟨run,old,failed⟩
      · rw [List.mem_singleton.mp new,performed,plain.thrown] at failed
        cases failed
    | _ => exact meets.quiet e thrown
  · intro g member
    rcases Multiset.mem_add.mp member with new | old
    · exact lawful_frames meets round honest reacts g new
    · exact Lawful.react meets counts reacts old (meets.frames g (Multiset.mem_cons_of_mem old))
  · intro w done
    by_cases before : Done sh w
    · exact (meets.done w before).react meets counts reacts (Or.inl before)
    · cases reacts with
      | doneWaiting l e =>
        by_cases same : .waitingTasks w = l
        · subst l
          cases w <;> exact lawful
        · exact absurd (by simpa [Done,Shared.setList,same] using done) before
      | runEmpty p | runAsync p => exact absurd (by simpa [Done,Shared.setList] using done) before
      | _ => exact absurd done before
  · intro w started
    by_cases before : sh.workStarted w = true
    · exact meets.started w before
    · cases reacts with
      | startWork v added fresh =>
        by_cases same : w = v
        · subst v
          exact lawful
        · simp [Shared.hold,Shared.start,same,before] at started
      | _ => exact absurd started before

end Steps

end ToyMtFramework.Schedule
