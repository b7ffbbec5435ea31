import ToyMtFramework.ScheduleGets
import ToyMtFramework.ScheduleRoots

/-! What a synchronous `get` with a label returns in the TBB framework. Nothing starts the producer
for the call, so it returns what was put in the event only where the getters of the calling module, or
of a filter in front of it, have had the producer run. A module that is not thread safe may not call. -/
namespace ToyMtFramework.Schedule.Gets
open Activities Transition Loop

variable {L D E : Type} [DecidableEq L] [DecidableEq D] {job : Job L D E}

def Returns (job : Job L D E) (sh : Shared L D E) (log : List (Entry L D E)) (w : Wrapper L D) (k : L × D) :
    Prop :=
  ∃ value, (∀ build, edmGet build job sh w k = some value) ∧ (puts k.1 k.2 log).getLast? = some value

/-- A body of the producer that has registered the product has put it in this event. -/
def Produced (job : Job L D E) (k : L × D) (log : List (Entry L D E)) : Prop :=
  (job.module (.producer k.1 k.2)).isSome = true ∧
    ∃ d outcome value, .performed (.producer k.1 d) outcome ∈ log ∧ (k.2,value) ∈ outcome.puts

/-- The getters lead from the module to the product, or to another one that the same producer puts. -/
def Prefetched (job : Job L D E) (w : Wrapper L D) (k : L × D) : Prop :=
  ∃ d, job.module (.producer k.1 d) = job.module (.producer k.1 k.2) ∧
    Relation.TransGen job.base.Requests w (.producer k.1 d)

/-- Wherever a path has a filter from which the getters lead to the module, one of the filters in front
of it on this path has the product prefetched. -/
def Preceded (job : Job L D E) (w : Wrapper L D) (k : L × D) : Prop :=
  ∀ (p i : Nat) (label : L), (job.base.path p)[i]? = some label →
    Relation.ReflTransGen job.base.Requests (.filter label) w →
      ∃ j < i, ∃ other : L, (job.base.path p)[j]? = some other ∧ Prefetched job (.filter other) k

/-- When the calls return what they should; `w` is about to call `get` for `k`. -/
structure GetsRight (job : Job L D E) (s : State L D E) (log : List (Entry L D E)) : Prop where
  returns : PutsAll job.base → ∀ w k toGet values got, .get w (k :: toGet) values got ∈ s.bag →
    job.isThreadSafe w = true → (Prefetched job w k ∨ Preceded job w k) → Returns job s.shared.schedule log w k
  refused : ∀ w k, job.isThreadSafe w = false → ¬Returns job s.shared.schedule log w k
  unasked : ∀ w k toGet values got, .get w (k :: toGet) values got ∈ s.bag →
    (∀ v d, ¬job.base.Requests v (.producer k.1 d)) → ¬Returns job s.shared.schedule log w k

theorem edmGet_eq_some {build : Build} {sh : Shared L D E} {w : Wrapper L D} {k : L × D} {value : Int} :
    edmGet build job sh w k = some value ↔ (job.module (.producer k.1 k.2)).isSome = true ∧
      (sh.cache k.1 k.2).value = value ∧ (build = .debug → job.isThreadSafe w = true ∧ (sh.cache k.1 k.2).wasCached = true) := by
  cases known : job.module (.producer k.1 k.2) with
  | none => simp [edmGet,eventGet,known]
  | some m =>
    cases build with
    | release => simp [edmGet,eventGet,known]
    | debug =>
      simp only [edmGet,eventGet,known]
      cases job.isThreadSafe w <;> cases (sh.cache k.1 k.2).wasCached <;> simp

/-- What has been put is what has been produced. -/
theorem produced_iff {sh : Shared L D E} {log : List (Entry L D E)} (cached : Cached job.base sh log) (k : L × D) :
    Produced job k log ↔ (job.module (.producer k.1 k.2)).isSome = true ∧ Current sh k.1 k.2 log := by
  constructor
  · rintro ⟨known,d,outcome,value,performed,put⟩
    have listed : k ∈ lookupMap job.base := product_listed (base_known.trans known)
    exact ⟨known,current_of_put cached listed (List.ne_nil_of_mem (mem_puts.mpr ⟨d,outcome,performed,put⟩))⟩
  · rintro ⟨known,_,last⟩
    obtain ⟨d,outcome,performed,put⟩ := mem_puts.mp (List.mem_of_getLast? last)
    exact ⟨known,d,outcome,_,performed,put⟩

theorem returns_iff {sh : Shared L D E} {log : List (Entry L D E)} (cached : Cached job.base sh log)
    (w : Wrapper L D) (k : L × D) :
    Returns job sh log w k ↔ job.isThreadSafe w = true ∧ Produced job k log := by
  rw [produced_iff cached]
  constructor
  · rintro ⟨value,returned,last⟩
    obtain ⟨known,rfl,asserted⟩ := edmGet_eq_some.mp (returned .debug)
    obtain ⟨safe,wasCached⟩ := asserted rfl
    exact ⟨safe,known,wasCached,last⟩
  · rintro ⟨safe,known,wasCached,last⟩
    exact ⟨_,fun build => edmGet_eq_some.mpr ⟨known,rfl,fun _ => ⟨safe,wasCached⟩⟩,last⟩

/-- What has been fetched has been produced, with all that its producer puts. -/
theorem prefetched_produced {log : List (Entry L D E)} (putsAll : PutsAll job.base)
    (logged : ModulesLogged job.base log) {w : Wrapper L D} {k : L × D} (supplied : Supplied job.base log w)
    (prefetched : Prefetched job w k) : Produced job k log := by
  obtain ⟨d,same,leads⟩ := prefetched
  have same : job.base.module (.producer k.1 d) = job.base.module (.producer k.1 k.2) := by
    rw [base_module,base_module,same]
  obtain ⟨known,outcome,value,performed,put⟩ := finished_put putsAll logged (logged.fetched supplied leads) same
  exact ⟨base_known.symm.trans known,d,outcome,value,performed,put⟩

/-- The path has passed a filter in front, which was run when its getters had been supplied. -/
theorem preceded_produced {log : List (Entry L D E)} (putsAll : PutsAll job.base)
    (logged : ModulesLogged job.base log) (paths : ∀ p, PathLogged job.base p log) {w : Wrapper L D} {k : L × D}
    (rooted : Rooted job.base log w) (preceded : Preceded job w k) : Produced job k log := by
  obtain ⟨p,i,label,requested,at_i,leads⟩ := rooted
  obtain ⟨j,earlier,other,at_j,prefetched⟩ := preceded p i label at_i leads
  obtain ⟨passing,at_passing,_,outcome,performed,_⟩ := (paths p).passed_before requested earlier
  obtain rfl : passing = other := Option.some.inj (at_passing.symm.trans at_j)
  exact prefetched_produced putsAll logged (logged.performed _ _ performed).supplied prefetched

/-- Filter 0 asks for the product of producer 2 by label, filter 1 has it prefetched. -/
def twoReaders (path : List Nat) : Job Nat Unit Unit where
  filters := [eventTimesSyncGetPassFilter 0 .threadSafeBetweenInstances [2],
    fastPassFilter 1 .threadSafeBetweenInstances [2]]
  producers := [threadSafeProducer 2 7]
  paths := [path]

theorem twoReaders_puts (path : List Nat) : PutsAll (twoReaders path).base := by
  intro m member seed index values _ d registered
  obtain rfl := List.mem_singleton.mp member
  exact ⟨_,List.mem_singleton.mpr rfl⟩

/-- Filter 1 is in front of filter 0. -/
theorem twoReaders_preceded : Preceded (twoReaders [1,0]) (.filter 0) (2,()) := by
  intro p i label at_i leads
  have ends : label = 0 := by
    rcases Relation.ReflTransGen.cases_tail leads with same | ⟨v,_,needed⟩
    · cases same
      rfl
    · obtain ⟨k,same⟩ := needed.producer
      cases same
  subst ends
  match p, i with
  | 0, 0 => cases at_i
  | 0, i + 1 => exact ⟨0,Nat.succ_pos i,1,rfl,(),rfl,.single (List.mem_singleton.mpr rfl)⟩
  | p + 1, i => cases at_i

def staleRun : List Action :=
  turns [(22,0),(6,3),(3,2),(12,4),(5,7),(3,6),(6,8),(3,5),(3,9),(3,1),(2,10),(22,11),(3,14)]

end ToyMtFramework.Schedule.Gets
