import ToyMtFramework.OpenMPGetPrefetch
import ToyMtFramework.SchedulePrefetch

/-! A body finds what its module has prefetched, in both frameworks. The schedule has the paths and the
reset of an event step by step; the modules of OpenMP have the bodies that call `edm::Event::get`. -/
namespace ToyMtFramework.PrefetchedProducts
open Activities Transition

theorem bodies_supplied (L D E : Type) [DecidableEq L] [DecidableEq D] :
    (∀ (framework : Schedule.Framework) (job : Schedule.Job L D E), Schedule.Loop.PutsAll job →
      ∀ (source : List Nat) (s : Schedule.Loop.State L D E) (log : List (Schedule.Entry L D E)),
        Reaches (Schedule.Loop.nextLogged framework job) (fun t a => Schedule.Loop.Quiet t.1 a)
          (Schedule.Loop.initial L D E source,[]) (s,log) → Schedule.Loop.Prefetches job s log) ∧
    ∀ (job : OpenMP.Job L D E) (s : OpenMP.State L D E),
      Reaches (OpenMP.next job) OpenMP.Careful (OpenMP.initial L D E) s → OpenMP.Prefetches job s := by
  constructor
  · intro framework job putsAll source s log run
    exact Schedule.Loop.prefetched framework job putsAll source s log run
  · intro job s run
    exact OpenMP.prefetches run

/-- A filter that prefetches the product of producer 1 and asks for that of producer 2. -/
def fetchingMore : OpenMP.Job Nat Unit Unit where
  filters := [⟨0,.threadSafeBetweenModules,[(1,())],[],
    fun _ => .get 2 () fun _ => .getPrefetched 1 () fun _ => .finish⟩]
  producers := [⟨1,.threadUnsafe,[],[()],fun _ => .put () 7 .finish⟩,
    ⟨2,.threadSafeBetweenInstances,[],[()],fun _ => .put () 8 .finish⟩]

/-- The filter is requested, and its body has come to the product that it has prefetched. -/
def fetchedMore : List (OpenMP.Action Nat Unit) :=
  .request ⟨0,.filter 0⟩ ::
    ([0,0,0,0,0,0,0,3,4,4,4,4,4,4,2,2,2,0,0,5,6,6,6,6,6,6,6,6,8,8,8,8,8,7,7,7,6] : List Nat).map fun k =>
      .act k ⟨0,none⟩

/-- The body of filter 0 of `oneGet` in event 7, and that of `fetchingMore`, find their products. -/
theorem bodies_supplied_both :
    (∃ s log, execute (Schedule.Loop.nextLogged .openMP Schedule.Loop.oneGet)
        (Schedule.Loop.initial Nat Unit Unit [7],[])
        (Schedule.turns [(24,0),(4,4),(3,3),(1,5),(2,6)]) = some (s,log) ∧
      Schedule.Loop.Current s.shared.schedule 1 () log) ∧
    ∃ s, execute (OpenMP.next fetchingMore) (OpenMP.initial Nat Unit Unit) fetchedMore = some s ∧
      OpenMP.Current s.shared ⟨0,.producer 1 ()⟩ := by
  obtain ⟨schedule,openMP⟩ := bodies_supplied Nat Unit Unit
  constructor
  · obtain ⟨s,ran,top⟩ : ∃ s, execute (Schedule.Loop.nextLogged .openMP Schedule.Loop.oneGet)
        (Schedule.Loop.initial Nat Unit Unit [7],[]) (Schedule.turns [(24,0),(4,4),(3,3),(1,5),(2,6)]) = some s ∧
        s.1.top 6 = some (.schedule (.body (.filter 0) [.producer 1 ()] [])) := ⟨_,rfl,rfl⟩
    have right := schedule .openMP Schedule.Loop.oneGet Schedule.Loop.oneGet_puts [7] s.1 s.2
      (execute_reaches _ (by decide) ran)
    exact ⟨s.1,s.2,ran,right.cached _ _ _ (Pool.top_mem top) 1 () (List.mem_singleton.mpr rfl)⟩
  · obtain ⟨s,ran,executing⟩ : ∃ s, execute (OpenMP.next fetchingMore) (OpenMP.initial Nat Unit Unit)
        fetchedMore = some s ∧ (s.top 6).bind OpenMP.Frame.executing = some ⟨0,.filter 0⟩ := ⟨_,rfl,rfl⟩
    obtain ⟨f,top,executing⟩ := Option.bind_eq_some_iff.mp executing
    have right := openMP fetchingMore s (execute_reaches _ (by decide +kernel) ran)
    exact ⟨s,ran,right.cached f (Multiset.mem_coe.mp (Pool.top_mem top)) _ executing _
      (List.mem_singleton.mpr rfl)⟩

end ToyMtFramework.PrefetchedProducts
