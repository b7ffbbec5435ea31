import ToyMtFramework.OpenMPGetPause
import ToyMtFramework.OpenMPGetStreams

/-! What the modules of the OpenMP framework find that they have prefetched, whatever their bodies ask
for by `edm::Event::get`. The task that runs a module has a holder for each of its getters until the
product is there, and takes the first exception it is told of, so a body is only executed when all its
products have been announced without one. -/
namespace ToyMtFramework.OpenMP
open Activities Transition

variable {L D E : Type}

def Frame.Asks (w g : ModuleWrapper L D) (f : Frame L D E) : Prop :=
  match f.stage with
  | .doWorkAsync v t | .node v t => v = g ∧ t = .runModule w
  | .prefetch v gs => v = w ∧ g ∈ gs
  | _ => False

def Frame.Fails (w : ModuleWrapper L D) (f : Frame L D E) : Prop :=
  ∃ e, f.stage = .doneWaitingTask (.runModule w) (some e)

def Frame.runs (f : Frame L D E) : Option (ModuleWrapper L D) :=
  match f.stage with
  | .queued w none | .runModule w none | .body w _ | .get w _ _ _ | .regionEnd _ w _ _ _ => some w
  | _ => none

theorem executing_runs {f : Frame L D E} {w : ModuleWrapper L D} (executing : f.executing = some w) :
    f.runs = some w := by
  obtain ⟨region,stage⟩ := f
  cases stage <;> cases executing <;> rfl

section Machine
variable [DecidableEq L] [DecidableEq D]

def Supplied (job : Job L D E) (sh : Shared L D E) (w : ModuleWrapper L D) : Prop :=
  ∀ g ∈ job.getters w, none ∈ sh.outcomes g

structure Supplies (job : Job L D E) (sh : Shared L D E) (bag : Multiset (Frame L D E)) : Prop where
  asked : ∀ w, sh.workStarted w = true → ∀ g ∈ job.getters w, (∃ f ∈ bag, f.Asks w g) ∨
    none ∈ sh.outcomes g ∨ (sh.exceptionPtr (.runModule w)).isSome = true ∨ ∃ f ∈ bag, f.Fails w
  frames : ∀ f ∈ bag, ∀ w, f.runs = some w → Supplied job sh w
  ran : ∀ run ∈ sh.ran, Supplied job sh run.wrapper

variable {job : Job L D E} {sh : Shared L D E} {f g : Frame L D E}
  {r : Reaction (Shared L D E) (Frame L D E)} {rest : Multiset (Frame L D E)}

theorem Supplied.react {w : ModuleWrapper L D} (supplied : Supplied job sh w) (reacts : Reacts job sh f r) :
    Supplied job r.shared w :=
  fun v needed => outcomes_react reacts v none (supplied v needed)

omit [DecidableEq L] [DecidableEq D] in
/-- The task of a module has a holder while the module waits for a product. -/
theorem Frame.Asks.owns [DecidableEq L] [DecidableEq D] {w v : ModuleWrapper L D} (asks : f.Asks w v) :
    0 < OpenMP.owns (.runModule w) f := by
  obtain ⟨region,stage⟩ := f
  cases stage with
  | doWorkAsync u t | node u t =>
    obtain ⟨_,rfl⟩ := asks
    simp [OpenMP.owns]
  | prefetch u gs =>
    obtain ⟨rfl,_⟩ := asks
    simp [OpenMP.owns]
  | _ => exact asks.elim

theorem Frame.Fails.owns {w : ModuleWrapper L D} (fails : f.Fails w) : 0 < OpenMP.owns (.runModule w) f := by
  obtain ⟨region,stage⟩ := f
  obtain ⟨e,same⟩ := fails
  cases same
  simp [OpenMP.owns]

/-- When the task of a module is executed and has no exception, all its products are there. -/
theorem Supplies.executes (supplies : Supplies job sh (f ::ₘ rest)) (kept : Kept sh (f ::ₘ rest))
    {w : ModuleWrapper L D} (executes : f.stage = .execute w)
    (clean : sh.exceptionPtr (.runModule w) = none) : Supplied job sh w := by
  have work := kept.work w
  have once := Bool.toNat_le (sh.workStarted w)
  have busy : works w f = 1 := by simp [works,executes]
  rw [weigh_cons,busy] at work
  have started : sh.workStarted w = true := by
    by_contra unstarted
    rw [Bool.eq_false_iff.mpr unstarted,Bool.toNat_false] at work
    omega
  have unowned : weigh (owns (.runModule w)) (f ::ₘ rest) = 0 := by
    rw [← kept.owners]
    omega
  intro v needed
  rcases supplies.asked w started v needed with ⟨h,member,asks⟩ | told | failed | ⟨h,member,fails⟩
  · have light := weigh_eq_zero unowned member
    have heavy := asks.owns
    omega
  · exact told
  · rw [clean] at failed
    cases failed
  · have light := weigh_eq_zero unowned member
    have heavy := fails.owns
    omega

/-- What the module of a frame needs is there, also for the frames that come next. -/
theorem Supplies.frames_react (supplies : Supplies job sh (f ::ₘ rest)) (kept : Kept sh (f ::ₘ rest))
    (reacts : Reacts job sh f r) {w : ModuleWrapper L D} (member : g ∈ r.frames) (runs : g.runs = some w) :
    Supplied job r.shared w := by
  have inherited (before : f.runs = some w) : Supplied job r.shared w :=
    (supplies.frames f (Multiset.mem_cons_self f rest) w before).react reacts
  cases reacts with
  | execute region v | push region v =>
    obtain rfl := List.mem_singleton.mp (Multiset.mem_coe.mp member)
    cases clean : sh.exceptionPtr (.runModule v) with
    | none =>
      rw [clean] at runs
      obtain rfl := Option.some.inj runs
      exact supplies.executes kept rfl clean
    | some e =>
      rw [clean] at runs
      cases runs
  | queued region k v e q =>
    rcases List.mem_pair.mp (Multiset.mem_coe.mp member) with rfl | rfl
    · cases e with
      | none => exact inherited runs
      | some e => cases runs
    · cases runs
  | runModule | get | getPrefetched | put | cached | regionEnd =>
    obtain rfl := List.mem_singleton.mp (Multiset.mem_coe.mp member)
    exact inherited runs
  | parallel =>
    rcases List.mem_pair.mp (Multiset.mem_coe.mp member) with rfl | rfl
    · cases runs
    · exact inherited runs
  | decrementLast region t last =>
    have spawned : g ∈ (t.spawned region : List (Frame L D E)) := by simpa using member
    cases t with
    | runModule v =>
      obtain rfl := List.mem_singleton.mp spawned
      cases runs
    | _ => cases spawned
  | startRefused | finishedTask | decrement | doneWaiting => simp at member
  | _ =>
    simp only [Reaction.frames_mk,List.append_nil,List.nil_append,List.cons_append,Multiset.mem_coe,
      List.mem_cons,List.not_mem_nil,or_false] at member
    rcases member with rfl | rfl <;> cases runs

/-- A product that a module waits for comes, or the module is about to be told why it does not. -/
theorem asks_react (kept : Kept sh (f ::ₘ rest)) (reacts : Reacts job sh f r) {w v : ModuleWrapper L D}
    (asks : f.Asks w v) : (∃ g ∈ r.frames, g.Asks w v) ∨ none ∈ sh.outcomes v ∨ ∃ g ∈ r.frames, g.Fails w := by
  have told (e : Option E) (announced : e ∈ sh.outcomes v) (region : Option Nat)
      (member : ⟨region,.doneWaitingTask (.runModule w) e⟩ ∈ r.frames) :
      none ∈ sh.outcomes v ∨ ∃ g ∈ r.frames, g.Fails w := by
    cases e with
    | none => exact Or.inl announced
    | some e => exact Or.inr ⟨_,member,e,rfl⟩
  cases reacts with
  | add region u t waiting =>
    obtain ⟨rfl,rfl⟩ := asks
    exact Or.inl ⟨⟨none,.node u (.runModule w)⟩,by simp,rfl,rfl⟩
  | addLate region u t waiting =>
    obtain ⟨rfl,rfl⟩ := asks
    exact Or.inr (told _ (kept.closed u waiting) region (by simp))
  | node region q u t waiting =>
    obtain ⟨rfl,rfl⟩ := asks
    exact Or.inr (told _ (kept.closed u waiting) q (by simp))
  | prefetched => exact absurd asks.2 (List.not_mem_nil)
  | prefetch region u x gs =>
    obtain ⟨rfl,listed⟩ := asks
    left
    rcases List.mem_cons.mp listed with rfl | later
    · exact ⟨⟨region,.doWorkAsync v (.runModule u)⟩,by simp,rfl,rfl⟩
    · exact ⟨⟨region,.prefetch u gs⟩,by simp,rfl,later⟩
  | _ => exact asks.elim

/-- An exception that a module has been told of stays until it is started anew. -/
theorem exceptionPtr_stays (reacts : Reacts job sh f r) {w : ModuleWrapper L D} (started : sh.workStarted w = true)
    (failed : (sh.exceptionPtr (.runModule w)).isSome = true) :
    (r.shared.exceptionPtr (.runModule w)).isSome = true := by
  cases reacts with
  | get region v =>
    obtain ⟨count,calls,callers,same⟩ := beginGet_eq job sh v
    rw [same]
    exact failed
  | startWork region v unstarted =>
    have other : w ≠ v := by
      rintro rfl
      rw [unstarted] at started
      cases started
    simpa [Shared.start,other] using failed
  | doneWaitingTask region t e =>
    by_cases same : TaskId.runModule w = t
    · subst same
      obtain ⟨x,present⟩ := Option.isSome_iff_exists.mp failed
      simp [Shared.dependentTaskFailed,present]
    · simpa [Shared.dependentTaskFailed,same] using failed
  | _ => exact failed

theorem fails_react (reacts : Reacts job sh f r) {w : ModuleWrapper L D} (fails : f.Fails w) :
    (r.shared.exceptionPtr (.runModule w)).isSome = true := by
  obtain ⟨region,stage⟩ := f
  obtain ⟨e,same⟩ := fails
  cases same
  cases reacts
  cases earlier : sh.exceptionPtr (.runModule w) <;> simp [Shared.dependentTaskFailed,earlier]

theorem Supplies.react (supplies : Supplies job sh (f ::ₘ rest)) (kept : Kept sh (f ::ₘ rest))
    (reacts : Reacts job sh f r) : Supplies job r.shared (r.frames + rest) := by
  constructor
  · intro w started v needed
    by_cases was : sh.workStarted w = true
    · rcases supplies.asked w was v needed with ⟨h,member,asks⟩ | told | failed | ⟨h,member,fails⟩
      · rcases Multiset.mem_cons.mp member with rfl | other
        · rcases asks_react kept reacts asks with ⟨g,inside,asks⟩ | told | ⟨g,inside,fails⟩
          · exact Or.inl ⟨g,Multiset.mem_add.mpr (Or.inl inside),asks⟩
          · exact Or.inr (Or.inl (outcomes_react reacts v none told))
          · exact Or.inr (Or.inr (Or.inr ⟨g,Multiset.mem_add.mpr (Or.inl inside),fails⟩))
        · exact Or.inl ⟨h,Multiset.mem_add.mpr (Or.inr other),asks⟩
      · exact Or.inr (Or.inl (outcomes_react reacts v none told))
      · exact Or.inr (Or.inr (Or.inl (exceptionPtr_stays reacts was failed)))
      · rcases Multiset.mem_cons.mp member with rfl | other
        · exact Or.inr (Or.inr (Or.inl (fails_react reacts fails)))
        · exact Or.inr (Or.inr (Or.inr ⟨h,Multiset.mem_add.mpr (Or.inr other),fails⟩))
    · -- The call that starts the module goes through all its getters.
      cases reacts with
      | startWork region u unstarted =>
        have same : w = u := by
          by_contra other
          simp [Shared.start,other] at started
          exact was started
        subst same
        exact Or.inl ⟨⟨region,.prefetch w (job.getters w)⟩,by simp,rfl,needed⟩
      | get region u =>
        obtain ⟨count,calls,callers,same⟩ := beginGet_eq job sh u
        rw [same] at started
        exact absurd started was
      | _ => exact absurd started was
  · intro g member w runs
    rcases Multiset.mem_add.mp member with new | old
    · exact supplies.frames_react kept reacts new runs
    · exact (supplies.frames g (Multiset.mem_cons_of_mem old) w runs).react reacts
  · intro run member
    have before (old : run ∈ sh.ran) : Supplied job r.shared run.wrapper := (supplies.ran run old).react reacts
    have executed (w : ModuleWrapper L D) (runs : f.runs = some w) : Supplied job r.shared w :=
      (supplies.frames f (Multiset.mem_cons_self f rest) w runs).react reacts
    cases reacts with
    | get region u =>
      obtain ⟨count,calls,callers,same⟩ := beginGet_eq job sh u
      rw [same] at member before ⊢
      exact before member
    | finish region u | throw region u e =>
      rcases List.mem_append.mp member with old | new
      · exact before old
      · rw [List.mem_singleton.mp new]
        exact executed u rfl
    | _ => exact before member

theorem Supplies.reset {bag : Multiset (Frame L D E)} (supplies : Supplies job sh bag) {stream : Nat}
    (quiet : ∀ f ∈ bag, f.concerns stream = false) : Supplies job (sh.reset stream) bag := by
  have stays {w : ModuleWrapper L D} (other : w.stream ≠ stream) (supplied : Supplied job sh w) :
      Supplied job (sh.reset stream) w := by
    intro v needed
    rw [reset_outcomes (by rwa [getters_stream needed])]
    exact supplied v needed
  constructor
  · intro w started v needed
    have other : w.stream ≠ stream := by
      intro inside
      simp [Shared.reset,inside] at started
    rw [reset_outcomes (by rwa [getters_stream needed])]
    exact supplies.asked w (by simpa [Shared.reset,other] using started) v needed
  · intro f member w runs
    refine stays (fun inside => ?_) (supplies.frames f member w runs)
    have apart := quiet f member
    obtain ⟨region,stage⟩ := f
    cases stage with
    | queued v e | runModule v e =>
      cases e with
      | none =>
        cases runs
        simp [Frame.concerns,inside] at apart
      | some e => cases runs
    | body | get | regionEnd =>
      cases runs
      simp [Frame.concerns,inside] at apart
    | _ => cases runs
  · intro run member
    obtain ⟨old,other⟩ := mem_reset_ran.mp member
    exact stays other (supplies.ran run old)

theorem Supplies.next {s t : State L D E} {a : Action L D} (supplies : Supplies job s.shared s.bag)
    (kept : Kept s.shared s.bag) (careful : Careful s a) (taken : next job s a = some t) :
    Supplies job t.shared t.bag := by
  cases a with
  | act thread choice =>
    obtain ⟨f,r,rest,reacted,shared,before,after,_⟩ := Pool.step_bag (Queues.step_idle taken).1
    rw [before] at kept supplies
    rw [shared,after]
    exact supplies.react kept (react_reacts reacted)
  | request w =>
    cases taken
    rw [Pool.bag_spawn]
    refine ⟨fun v started g needed => ?_,fun f member v runs => ?_,supplies.ran⟩
    · rcases supplies.asked v started g needed with ⟨h,member,asks⟩ | told | failed | ⟨h,member,fails⟩
      · exact Or.inl ⟨h,Multiset.mem_cons_of_mem member,asks⟩
      · exact Or.inr (Or.inl told)
      · exact Or.inr (Or.inr (Or.inl failed))
      · exact Or.inr (Or.inr (Or.inr ⟨h,Multiset.mem_cons_of_mem member,fails⟩))
    · rcases Multiset.mem_cons.mp member with rfl | old
      · cases runs
      · exact supplies.frames f old v runs
  | reset stream =>
    cases taken
    exact supplies.reset fun f member => careful f (Multiset.mem_coe.mp member)

def Current (sh : Shared L D E) (w : ModuleWrapper L D) : Prop :=
  (sh.cache w).wasCached = true ∧ sh.put w = some (sh.cache w).value

structure Prefetches (job : Job L D E) (s : State L D E) : Prop where
  cached : ∀ f ∈ s.threads.flatten, ∀ w ∈ f.executing, ∀ g ∈ job.getters w, Current s.shared g
  skipped : ∀ w g x, g ∈ job.getters w → some x ∈ s.shared.outcomes g →
    (∀ run ∈ s.shared.ran, run.wrapper ≠ w) ∧ ∀ f ∈ s.threads.flatten, f.executing ≠ some w

theorem Supplied.current {bag : Multiset (Frame L D E)} (kept : Kept sh bag) {w : ModuleWrapper L D}
    (supplied : Supplied job sh w) {v : ModuleWrapper L D} (needed : v ∈ job.getters w) : Current sh v := by
  obtain ⟨_,cached⟩ := kept.finished v (supplied v needed)
  have producer : ∃ label product, v.key = .producer label product := by
    unfold Job.getters at needed
    split at needed
    · cases needed
    · obtain ⟨g,_,rfl⟩ := List.mem_map.mp needed
      exact ⟨g.1,g.2,rfl⟩
  obtain ⟨label,product,key⟩ := producer
  rw [key] at cached
  exact ⟨cached,kept.cached v cached⟩

/-- In a run in which the producers put their products and each event of a stream begins when nothing of
the event before is going on, a body finds each product that its module gets, as it was put in the event. -/
theorem prefetches {s : State L D E} (run : Reaches (next job) Careful (initial L D E) s) : Prefetches job s := by
  have preserved (s : State L D E) (a : Action L D) (t : State L D E)
      (holds : Kept s.shared s.bag ∧ Supplies job s.shared s.bag) (careful : Careful s a)
      (taken : next job s a = some t) : Kept t.shared t.bag ∧ Supplies job t.shared t.bag :=
    ⟨holds.1.next careful taken,holds.2.next holds.1 careful taken⟩
  have start : Supplies job (initial L D E).shared (initial L D E).bag := by
    constructor <;> simp [initial,Pool.bag]
  have still : Reaches (next job) Careful (initial L D E) (initial L D E) := Reaches.refl _
  obtain ⟨kept,supplies⟩ := run.invariant preserved ⟨OpenMP.kept still,start⟩
  have skips {w g : ModuleWrapper L D} {x : E} (needed : g ∈ job.getters w)
      (failed : some x ∈ s.shared.outcomes g) (supplied : Supplied job s.shared w) : False := by
    have only := (kept.announced failed).1
    have told := supplied g needed
    rw [only] at told
    cases List.mem_singleton.mp told
  have supplied (f : Frame L D E) (member : f ∈ s.threads.flatten) (w : ModuleWrapper L D)
      (executing : f.executing = some w) : Supplied job s.shared w :=
    supplies.frames f (Multiset.mem_coe.mpr member) w (executing_runs executing)
  constructor
  · intro f member w executing g needed
    exact (supplied f member w executing).current kept needed
  · intro w g x needed failed
    constructor
    · rintro run member rfl
      exact skips needed failed (supplies.ran run member)
    · intro f member executing
      exact skips needed failed (supplied f member w executing)

end Machine
end ToyMtFramework.OpenMP
