import ToyMtFramework.SchedulePathReports

/-! What a body finds when it gets its products. A module is run when all that it prefetches has
been produced in the same event, so each product is cached with the value that was put in this event,
and a module for which a prefetched item failed is not run. This holds in every run in which no
module is reset under a call of `doWorkAsync`. -/
namespace ToyMtFramework.Schedule.Loop
open Activities Transition

variable {L D E : Type} [DecidableEq L] [DecidableEq D] {job : Job L D E}

/-- Each producer that returns normally has put each of its registered products. -/
def PutsAll (job : Job L D E) : Prop :=
  ∀ m ∈ job.producers, ∀ seed index values, (m.perform seed index values).thrown = none →
    ∀ d ∈ m.products, ∃ v, (d,v) ∈ (m.perform seed index values).puts

def Current (sh : Shared L D E) (label : L) (product : D) (log : List (Entry L D E)) : Prop :=
  (sh.cache label product).wasCached = true ∧
    (puts label product log).getLast? = some (sh.cache label product).value

/-- What the bodies that are run in an event find, and which bodies are not run. -/
structure Prefetches (job : Job L D E) (s : State L D E) (log : List (Entry L D E)) : Prop where
  cached : ∀ w gs values, .schedule (.body w gs values) ∈ s.bag → ∀ label product,
    .producer label product ∈ job.getters w → Current s.shared.schedule label product log
  skipped : ∀ w g x, g ∈ job.getters w → .finished g (some x) ∈ log →
    (∀ outcome, .performed w outcome ∉ log) ∧ ∀ gs values, .schedule (.body w gs values) ∉ s.bag

theorem current_of_put {sh : Shared L D E} {log : List (Entry L D E)} {label : L} {product : D}
    (cached : Cached job sh log) (listed : (label,product) ∈ lookupMap job) (put : puts label product log ≠ []) :
    Current sh label product log := by
  have equal : (sh.cache label product).cached = (puts label product log).getLast? := cached _ listed
  cases state : (sh.cache label product).wasCached with
  | true =>
    refine ⟨state,?_⟩
    rw [← equal,DataCache.cached,state,if_pos rfl]
  | false =>
    rw [DataCache.cached,state,if_neg (by simp)] at equal
    exact absurd (List.getLast?_eq_none_iff.mp equal.symm) put

/-- A producer that has finished without an exception has put each of its products. -/
theorem finished_put {log : List (Entry L D E)} (putsAll : PutsAll job) (logged : ModulesLogged job log)
    {label : L} {d product : D} (finished : .finished (.producer label d) none ∈ log)
    (same : job.module (.producer label d) = job.module (.producer label product)) :
    (job.module (.producer label product)).isSome = true ∧
      ∃ outcome v, .performed (.producer label d) outcome ∈ log ∧ (product,v) ∈ outcome.puts := by
  obtain ⟨outcome,performed,returned⟩ := logged.normal _ finished
  obtain ⟨known,_,⟨seed,index,values,rfl⟩,_⟩ := logged.performed _ _ performed
  obtain ⟨m,found⟩ := Option.isSome_iff_exists.mp known
  have runs : job.perform (.producer label d) seed index values = m.perform seed index values := by
    rw [Job.perform,found]
  rw [runs] at performed returned
  rw [found] at same
  have registered : m.label = label ∧ product ∈ m.products := by simpa using List.find?_some same.symm
  obtain ⟨v,put⟩ := putsAll m (List.mem_of_find?_eq_some found) seed index values returned product registered.2
  exact ⟨same ▸ rfl,_,v,performed,put⟩

theorem finished_current {sh : Shared L D E} {log : List (Entry L D E)} (putsAll : PutsAll job)
    (logged : ModulesLogged job log) (cached : Cached job sh log) {label : L} {product : D}
    (finished : .finished (.producer label product) none ∈ log) : Current sh label product log := by
  obtain ⟨known,outcome,v,performed,put⟩ := finished_put putsAll logged finished rfl
  exact current_of_put cached (product_listed known) (List.ne_nil_of_mem (mem_puts.mpr ⟨_,_,performed,put⟩))

/-- A body is only run inside an event, when all that its module gets has been produced. -/
theorem Phase.supplied {sh : Shared L D E} {log : List (Entry L D E)} {bag : Multiset (LoopFrame L D E)}
    (phase : Phase job (EventRight job) (BetweenRight job) sh log bag) {w : Wrapper L D}
    {gs : List (Wrapper L D)} {values : List Int} (member : .schedule (.body w gs values) ∈ bag) :
    Supplied job log w ∧ Cached job sh log := by
  cases phase with
  | inside frames round history right =>
    obtain ⟨f,present,same⟩ := Multiset.mem_map.mp member
    cases same
    exact ⟨right.modules.backed _ present,right.modules.cached⟩
  | between c frames outside between fresh history right =>
    have present := (Multiset.mem_cons.mp member).resolve_left (outside _).symm
    exact absurd present (refused_absent between.refused (by simp))
  | ended frames refused right => exact absurd member (refused_absent refused (by simp))

/-- In a run in which no module is reset under a call of `doWorkAsync`, a body finds each product
that it gets, as it was put in the event. -/
theorem prefetched (framework : Framework) (job : Job L D E) (putsAll : PutsAll job) (source : List Nat)
    (s : State L D E) (log : List (Entry L D E)) (run : Reaches (nextLogged framework job)
      (fun t a => Quiet t.1 a) (initial L D E source,[]) (s,log)) : Prefetches job s log := by
  have phase := (eventRule job).phase run
  obtain ⟨logged,_⟩ := phase.logged
  have skips {w g : Wrapper L D} {x : E} (needed : g ∈ job.getters w) (failed : .finished g (some x) ∈ log)
      (supplied : Supplied job log w) : False := by
    have equal := logged.unique (supplied g needed) failed
    cases equal
  constructor
  · intro w gs values member label product needed
    obtain ⟨supplied,cached⟩ := phase.supplied member
    exact finished_current putsAll logged cached (supplied _ needed)
  · intro w g x needed failed
    refine ⟨fun outcome performed => ?_,fun gs values member => ?_⟩
    · exact skips needed failed (logged.performed w outcome performed).supplied
    · exact skips needed failed (phase.supplied member).1

def oneGet : Job Nat Unit Unit where
  filters := [⟨0,.threadUnsafe,[(1,())],[],fun _ _ _ => ⟨[],true,none⟩⟩]
  producers := [⟨1,.threadSafeBetweenInstances,[],[()],fun _ index _ => ⟨[((),index)],true,none⟩⟩]
  paths := [[0]]

theorem oneGet_puts : PutsAll oneGet := by
  intro m member seed index values _ d registered
  obtain rfl := List.mem_singleton.mp member
  exact ⟨index,List.mem_singleton.mpr rfl⟩

/-- Filter 2 gets the product of producer 3. It is behind filter 0 on one path and behind filter 1 on
the other, which both keep event 0 only. -/
def staleGet : Job Nat Unit Unit where
  filters := [⟨0,.threadSafeBetweenInstances,[],[],fun _ index _ => ⟨[],index = 0,none⟩⟩,
    ⟨1,.threadSafeBetweenInstances,[],[],fun _ index _ => ⟨[],index = 0,none⟩⟩,
    ⟨2,.threadSafeBetweenInstances,[(3,())],[],fun _ _ _ => ⟨[],true,none⟩⟩]
  producers := [⟨3,.threadSafeBetweenInstances,[],[()],fun _ index _ => ⟨[((),index)],true,none⟩⟩]
  paths := [[0,2],[1,2]]

/-- Thread 7 adds a task to filter 2 in event 0 and starts the filter in event 1. Its body is begun
there, and gets the product when event 2 is being processed. -/
def staleGetRun : List Action :=
  turns [(32,0),(4,3),(3,2),(4,6),(3,5),(4,7),(12,8),(4,12),(3,11),(5,13),(3,9),(3,10),(3,14),(3,15),(3,1),
    (3,4),(2,16),(32,17),(8,7),(4,25),(3,24),(2,26),(4,20),(3,19),(4,23),(3,22),(3,27),(3,28),(3,18),(3,21),
    (2,29),(32,30)]

set_option maxRecDepth 8192 in
/-- The body of filter 2 is executed while its product is not cached for the event. -/
theorem staleGet_uncached : PutsAll staleGet ∧ ∃ s log,
    Reachable (nextLogged .tbb staleGet) (initial Nat Unit Unit [0,1,2],[]) (s,log) ∧
      s.shared.schedule.eventIndex = 2 ∧ .schedule (.body (.filter 2) [.producer 3 ()] []) ∈ s.bag ∧
      (s.shared.schedule.cache 3 ()).wasCached = false := by
  constructor
  · intro m member seed index values _ d registered
    obtain rfl := List.mem_singleton.mp member
    exact ⟨index,List.mem_singleton.mpr rfl⟩
  · obtain ⟨s,ran,current,top,stale⟩ : ∃ s,
        execute (nextLogged .tbb staleGet) (initial Nat Unit Unit [0,1,2],[]) staleGetRun = some s ∧
        s.1.shared.schedule.eventIndex = 2 ∧
        s.1.top 26 = some (.schedule (.body (.filter 2) [.producer 3 ()] [])) ∧
        (s.1.shared.schedule.cache 3 ()).wasCached = false := ⟨_,rfl,rfl,rfl,rfl⟩
    exact ⟨s.1,s.2,execute_reachable staleGetRun ran,current,Pool.top_mem top,stale⟩

end ToyMtFramework.Schedule.Loop
