import ToyMtFramework.DispatchScheduleBodies

/-! What an event does in the Dispatch framework, for a job whose modules depend on nothing but the
event and what they get. What is executed is what a path needs, with the values that it means, and a
path that has no frame any more has ended at the filter where it should. -/
namespace ToyMtFramework.DispatchSchedule
open Activities Transition
open Schedule (Job Wrapper performers LogMeans mem_performers mem_reached)
open Schedule.Loop (PutsAll)

variable {L D E : Type}

def Frame.worker : Frame L D E → Option (Worker L D)
  | .doPrefetchAndWork t | .requestPrefetch t | .prefetch t _ | .doProduceAsync t _ _ | .produceAsync t _ _
  | .waitForGet t _ _ | .notifyGet t _ _ | .notify _ (.work t) | .notified _ _ (.work t) | .block (.work t) | .addUnsafe t
  | .addWork t | .doWork t _ | .body t _ _ _ | .put t _ _ | .setWasRun t _ | .worked t _ => some t
  | .queued _ x | .task x => some x.worker
  | _ => none

def OnPath (p : Nat) : Frame L D E → Prop
  | .process ps => p ∈ ps
  | .processPresentPath q | .runAsync q | .runFilterAsync q _ | .doNextIfSuccess q _ _ _ => q = p
  | f => ∃ i label, f.worker = some (.filterOnPath p i label)

def calling : Frame L D E → Nat
  | .process _ | .notify _ .scheduleCallback | .notified _ _ .scheduleCallback | .block .scheduleCallback => 1
  | _ => 0

variable [DecidableEq L] [DecidableEq D] {job : Job L D E}

section Meaning
variable (plain : job.Plain) (index : Nat)

/-- The path has come to filter `i`, with the event kept by those before. -/
structure Passed (sh : Shared L D E) (p i : Nat) : Prop where
  inside : p < job.paths.length
  kept : ∀ j < i, ∀ label, (job.path p)[j]? = some label →
    .filter label ∈ performers sh.log ∧ (job.outcome plain.acyclic index (.filter label)).keep = true

def Ended (sh : Shared L D E) (p : Nat) : Prop :=
  ∀ label ∈ job.reached plain.acyclic index (job.path p), .filter label ∈ performers sh.log

def AllEnded (sh : Shared L D E) : Prop :=
  ∀ p < job.paths.length, Ended plain index sh p

def Wanted (sh : Shared L D E) : Worker L D → Prop
  | .filterOnPath p i label => (job.path p)[i]? = some label ∧ Passed plain index sh p i
  | .producer label product => job.Needed plain.acyclic index (.producer label product)

def Means (sh : Shared L D E) : Frame L D E → Prop
  | .process ps => ∀ p ∈ ps, p < job.paths.length
  | .processPresentPath p | .runAsync p => p < job.paths.length
  | .runFilterAsync p i => Passed plain index sh p i
  | .doProduceAsyncImpl g => job.Needed plain.acyclic index g
  | .body t _ gs values => ∃ before, before ++ gs = job.getters t.wrapper ∧
    values = before.map (job.value plain.acyclic index)
  | .put t _ puts => t.wrapper ∈ performers sh.log ∧
    ∀ put ∈ puts, ∃ label, t.wrapper = .producer label put.1 ∧ put.2 = job.value plain.acyclic index t.wrapper
  | .setWasRun t _ => t.wrapper ∈ performers sh.log
  | .doNextIfSuccess p i keep _ => Passed plain index sh p i ∧ ∃ label, (job.path p)[i]? = some label ∧
    .filter label ∈ performers sh.log ∧ keep = (job.outcome plain.acyclic index (.filter label)).keep
  | .notified g since .scheduleCallback => Awaits sh.groups g since (AllEnded plain index sh)
  | .block .scheduleCallback => AllEnded plain index sh
  | _ => True

/-- What has been executed is needed, and has what it gets. -/
structure LogRight (sh : Shared L D E) : Prop where
  event : sh.eventIndex = index
  logged : ∀ w outcome, .performed w outcome ∈ sh.log →
    job.Needed plain.acyclic index w ∧ outcome = job.outcome plain.acyclic index w
  closed : ∀ w ∈ performers sh.log, ∀ g ∈ job.getters w, g ∈ performers sh.log
  cached : ∀ w, sh.wasCached w = true → w ∈ performers sh.log ∧ sh.get w = job.value plain.acyclic index w
  keep : ∀ label, .filter label ∈ performers sh.log →
    sh.keep label = (job.outcome plain.acyclic index (.filter label)).keep

structure Meaningful (sh : Shared L D E) (bag : Multiset (Frame L D E)) : Prop where
  right : LogRight plain index sh
  wanted : ∀ f ∈ bag, ∀ t, f.worker = some t → Wanted plain index sh t
  means : ∀ f ∈ bag, Means plain index sh f
  paths : ∀ p < job.paths.length, (∃ f ∈ bag, OnPath p f) ∨ Ended plain index sh p
  calling : weigh calling bag + sh.called.length = 1
  called : sh.called ≠ [] → AllEnded plain index sh ∧ ∀ success ∈ sh.called, success = true

end Meaning

section Log
variable {plain : job.Plain} {index : Nat} {sh : Shared L D E} {f : Frame L D E}
  {r : Reaction (Shared L D E) (Frame L D E)} {bag rest : Multiset (Frame L D E)}

theorem plain_putsAll (plain : job.Plain) : PutsAll job := by
  intro m member seed index values _ d listed
  obtain ⟨product,products,puts⟩ := plain.single m member
  obtain ⟨value,puts⟩ := puts seed index values
  rw [products,List.mem_singleton] at listed
  exact ⟨value,by rw [puts,listed,List.mem_singleton]⟩

theorem logged_react {w : Wrapper L D} (reacts : Reacts job sh f r) (ran : w ∈ performers sh.log) :
    w ∈ performers r.shared.log := by
  cases reacts with
  | body t direct values seed returned =>
    unfold performers Shared.ran
    rw [List.filterMap_append]
    exact List.mem_append_left _ ran
  | _ => exact ran

theorem Passed.react {p i : Nat} (passed : Passed plain index sh p i) (reacts : Reacts job sh f r) :
    Passed plain index r.shared p i :=
  ⟨passed.inside,fun j before label at_j => (passed.kept j before label at_j).imp (logged_react reacts) id⟩

theorem Ended.react {p : Nat} (ended : Ended plain index sh p) (reacts : Reacts job sh f r) :
    Ended plain index r.shared p :=
  fun label member => logged_react reacts (ended label member)

theorem AllEnded.react (ended : AllEnded plain index sh) (reacts : Reacts job sh f r) :
    AllEnded plain index r.shared :=
  fun p inside => (ended p inside).react reacts

theorem Wanted.react {t : Worker L D} (wanted : Wanted plain index sh t) (reacts : Reacts job sh f r) :
    Wanted plain index r.shared t := by
  cases t with
  | filterOnPath p i label => exact ⟨wanted.1,wanted.2.react reacts⟩
  | producer label product => exact wanted

omit [DecidableEq L] [DecidableEq D] in
theorem path_listed {p : Nat} (inside : p < job.paths.length) : job.path p ∈ job.paths := by
  simp [Schedule.Job.path,inside]

theorem Wanted.needed {t : Worker L D} (wanted : Wanted plain index sh t) :
    job.Needed plain.acyclic index t.wrapper := by
  cases t with
  | filterOnPath p i label =>
    obtain ⟨at_i,passed⟩ := wanted
    refine ⟨job.path p,path_listed passed.inside,label,mem_reached.mpr ⟨i,at_i,?_⟩,.refl⟩
    exact fun j before other at_j => (passed.kept j before other at_j).2
  | producer label product => exact wanted

/-- What a needed module gets is needed. -/
theorem needed_getter {acyclic : job.Acyclic} {w g : Wrapper L D} (needed : job.Needed acyclic index w)
    (gets : g ∈ job.getters w) : job.Needed acyclic index g := by
  obtain ⟨path,listed,label,member,depends⟩ := needed
  exact ⟨path,listed,label,member,depends.tail gets⟩

/-- A body gives what its module means in this event. -/
theorem performed_means (right : LogRight plain index sh) {t : Worker L D} {direct : Bool} {values : List Int}
    (means : Means plain index sh (.body t direct [] values)) (seed : Nat) :
    job.perform t.wrapper seed sh.eventIndex values = job.outcome plain.acyclic index t.wrapper := by
  obtain ⟨before,getters,read⟩ := means
  rw [List.append_nil] at getters
  rw [right.event,plain.perform_eq,read,getters]
  rfl

/-- The worker of a producer puts the value of its product. -/
theorem puts_means (plain : job.Plain) {t : Worker L D} (known : Known job t) (put : D × Int)
    (member : put ∈ t.puts (job.outcome plain.acyclic index t.wrapper)) :
    ∃ label, t.wrapper = .producer label put.1 ∧ put.2 = job.value plain.acyclic index t.wrapper := by
  cases t with
  | filterOnPath p i label => cases member
  | producer label product =>
    have only : put ∈ (job.outcome plain.acyclic index (.producer label product)).puts := member
    rw [Schedule.Job.outcome,plain.puts known] at only
    obtain rfl := List.mem_singleton.mp only
    exact ⟨label,rfl,(Schedule.value_eq job plain.acyclic index (.producer label product)).symm⟩

theorem setValue_get (sh : Shared L D E) (label : L) (product : D) (value : Int) :
    (sh.setValue label product value).get (.producer label product) = value := by
  simp [Shared.get,Shared.setValue]

theorem setValue_get_other (sh : Shared L D E) (label : L) (product : D) (value : Int) {w : Wrapper L D}
    (other : w ≠ .producer label product) : (sh.setValue label product value).get w = sh.get w := by
  cases w with
  | filter name => rfl
  | producer name item =>
    by_cases same : name = label
    · subst same
      have different : item ≠ product := fun equal => other (by rw [equal])
      simp [Shared.get,Shared.setValue,different]
    · simp [Shared.get,Shared.setValue,same]

omit [DecidableEq D] in
theorem performers_ran (sh : Shared L D E) (t : Worker L D) (outcome : Schedule.Outcome D E) :
    performers (sh.ran t outcome).log = performers sh.log ++ [t.wrapper] := by
  simp [Shared.ran,performers,Schedule.Entry.performer]

/-- The body of a needed module is logged as it is meant, after what it gets. -/
theorem LogRight.ran (right : LogRight plain index sh) {t : Worker L D}
    (needed : job.Needed plain.acyclic index t.wrapper) (fetched : Fetched job sh t.wrapper) :
    LogRight plain index (sh.ran t (job.outcome plain.acyclic index t.wrapper)) := by
  have ran (w : Wrapper L D) : w ∈ performers (sh.ran t (job.outcome plain.acyclic index t.wrapper)).log ↔
      w ∈ performers sh.log ∨ w = t.wrapper := by
    rw [performers_ran,List.mem_append,List.mem_singleton]
  refine ⟨right.event,fun w outcome member => ?_,fun w member g gets => ?_,fun w there => ?_,fun label member => ?_⟩
  · rcases List.mem_append.mp member with old | new
    · exact right.logged w outcome old
    · cases List.mem_singleton.mp new
      exact ⟨needed,rfl⟩
  · rw [ran] at member ⊢
    rcases member with old | rfl
    · exact Or.inl (right.closed w old g gets)
    · exact Or.inl (right.cached g (fetched g gets)).1
  · rw [ran]
    exact (right.cached w there).imp Or.inl id
  · rw [ran] at member
    cases t with
    | filterOnPath p i other =>
      by_cases same : label = other
      · subst same
        simp [Shared.ran,Worker.wrapper]
      · simpa [Shared.ran,same] using right.keep label (member.resolve_right fun equal => by cases equal; exact same rfl)
    | producer other product => exact right.keep label (member.resolve_right fun equal => by cases equal)

/-- A value that is put is the one that the product means. -/
theorem LogRight.put (right : LogRight plain index sh) {label : L} {product : D} {value : Int}
    (ran : .producer label product ∈ performers sh.log)
    (means : value = job.value plain.acyclic index (.producer label product)) :
    LogRight plain index (sh.setValue label product value) := by
  refine ⟨right.event,right.logged,right.closed,fun w there => ?_,right.keep⟩
  by_cases same : w = .producer label product
  · subst same
    exact ⟨ran,by rw [setValue_get,means]⟩
  · rw [setValue_get_other sh label product value same]
    exact right.cached w (((setValue_wasCached sh label product value w).mp there).resolve_left same)

theorem LogRight.react (right : LogRight plain index sh) (stands : Stands job sh f)
    (wanted : ∀ t, f.worker = some t → Wanted plain index sh t) (means : Means plain index sh f)
    (reacts : Reacts job sh f r) : LogRight plain index r.shared := by
  cases reacts with
  | body t direct values seed returned =>
    obtain ⟨_,_,_,fetched,_⟩ := stands
    rw [performed_means right means]
    exact right.ran (wanted t rfl).needed fetched
  | put label product direct put puts known =>
    obtain ⟨ran,values⟩ := means
    obtain ⟨name,same,value⟩ := values put (List.mem_cons_self ..)
    cases same
    exact right.put ran value
  | _ => exact ⟨right.event,right.logged,right.closed,right.cached,right.keep⟩

end Log
end ToyMtFramework.DispatchSchedule
