import ToyMtFramework.Core.Halting
import ToyMtFramework.ScheduleEventFailures

/-! How much is left to do in an event, whatever its modules do. What a module has yet to do is bounded by
what it gets, a path by the filters in front of it, and every frame that holds a task pays for what the
task leads to. No frame acts without making the rest less. -/
namespace ToyMtFramework.Schedule
open Activities Transition

variable {L D E : Type} [DecidableEq L] [DecidableEq D] {job : Job L D E}

/-- What modules get and paths name is registered, and no module gets what depends on it. -/
structure Job.Closed (job : Job L D E) : Prop where
  acyclic : job.Acyclic
  resolved : ∀ m ∈ job.filters ++ job.producers, ∀ g ∈ m.getters, (job.find g.1 g.2).isSome = true
  registered : ∀ path ∈ job.paths, ∀ label ∈ path, (job.findFilter label).isSome = true

theorem Job.Plain.closed (plain : job.Plain) : job.Closed :=
  ⟨plain.acyclic,plain.resolved,plain.registered⟩

omit [DecidableEq L] [DecidableEq D] in
theorem mem_path {p : Nat} {label : L} (member : label ∈ job.path p) :
    p < job.paths.length ∧ job.path p ∈ job.paths := by
  unfold Job.path at member ⊢
  cases place : job.paths[p]? with
  | none => simp [List.getD,place] at member
  | some path =>
    obtain ⟨inside,_⟩ := List.getElem?_eq_some_iff.mp place
    refine ⟨inside,?_⟩
    rw [List.getD,place]
    exact List.mem_of_getElem? place

/-- Whatever is asked for is there. -/
theorem Job.Closed.known (closed : job.Closed) {w : Wrapper L D} {t : TaskId L D}
    (waits : WaitsFor job w t) : (job.module w).isSome = true := by
  cases t with
  | runModule v =>
    obtain ⟨m,found,g,member,rfl⟩ := getters_known job waits
    exact closed.resolved m (module_listed job found) g member
  | nextFilter p =>
    obtain ⟨label,member,rfl⟩ := waits
    exact closed.registered _ (mem_path member).2 label member
  | allPathsDone => cases waits

section Effort
variable (acyclic : job.Acyclic) (follows : Nat)

def workEffort (job : Job L D E) (w : Wrapper L D) : Nat :=
  (job.getters w).length + 5

noncomputable def startEffort : Wrapper L D → Nat :=
  Acyclic.evaluate job.getters (fun w efforts =>
    workEffort job w + 3 + (efforts.map fun n => workEffort job w + 5 + n).sum) acyclic.below

noncomputable def prefetchEffort (w : Wrapper L D) (gs : List (Wrapper L D)) : Nat :=
  workEffort job w + 2 + (gs.map fun g => workEffort job w + 5 + startEffort acyclic g).sum

noncomputable def pathEffort (p i : Nat) : Nat :=
  2 + (((job.path p).drop i).map fun label => startEffort acyclic (.filter label) + 7).sum

noncomputable def taskEffort (index : Nat → Nat) : TaskId L D → Nat
  | .runModule w => workEffort job w
  | .nextFilter p => pathEffort acyclic p (index p + 1) + 2
  | .allPathsDone => follows + 2

noncomputable def launchEffort (ps : List Nat) : Nat :=
  (ps.map fun p => pathEffort acyclic p 0 + follows + 7).sum + follows + 4

noncomputable def effort (index : Nat → Nat) : Frame L D E → Nat
  | .runPaths => launchEffort acyclic follows (List.range job.paths.length) + 1
  | .launch ps => launchEffort acyclic follows ps
  | .runAsync p => pathEffort acyclic p 0 + follows + 6
  | .runFilterAsync p i => pathEffort acyclic p i
  | .doWorkAsync w t => taskEffort acyclic follows index t + startEffort acyclic w + 4
  | .startWork w _ => startEffort acyclic w
  | .prefetch w gs => prefetchEffort acyclic w gs
  | .doneWaitingTask t _ => taskEffort acyclic follows index t + 2
  | .decrement t => taskEffort acyclic follows index t + 1
  | .node _ t => taskEffort acyclic follows index t + 3
  | .execute t => taskEffort acyclic follows index t
  | .queued w _ => (job.getters w).length + 4
  | .runModule w _ => (job.getters w).length + 3
  | .body _ gs _ => gs.length + 2
  | .doneWaiting _ _ => 1
  | .filterFinished p i _ => pathEffort acyclic p (i + 1) + 1
  | .callback _ => follows + 1

theorem startEffort_eq (w : Wrapper L D) :
    startEffort acyclic w = prefetchEffort acyclic w (job.getters w) + 1 := by
  rw [startEffort,Acyclic.evaluate_eq,List.map_map,prefetchEffort]
  change workEffort job w + 3 + ((job.getters w).map fun g => workEffort job w + 5 + startEffort acyclic g).sum = _
  omega

theorem pathEffort_step {p i : Nat} {label : L} (at_i : (job.path p)[i]? = some label) :
    pathEffort acyclic p i = pathEffort acyclic p (i + 1) + (startEffort acyclic (.filter label) + 7) := by
  obtain ⟨inside,here⟩ := List.getElem?_eq_some_iff.mp at_i
  rw [pathEffort,List.drop_eq_getElem_cons inside,here,List.map_cons,List.sum_cons,pathEffort]
  omega

end Effort

section Steps
variable {sh : Shared L D E} {f : Frame L D E} {r : Reaction (Shared L D E) (Frame L D E)}
  {rest : Multiset (Frame L D E)} {log : List (Entry L D E)}

/-- Every reaction leaves less to do. -/
theorem effort_react (acyclic : job.Acyclic) (follows : Nat) (reacts : Reacts job sh f r) :
    weigh (effort acyclic follows r.shared.index) r.frames < effort acyclic follows sh.index f := by
  have path (p i : Nat) : 2 ≤ pathEffort acyclic p i := Nat.le_add_right 2 _
  cases reacts with
  | runFilter p i label fatal at_i =>
    have step := pathEffort_step acyclic at_i
    simp [effort,taskEffort,Shared.hold,Shared.setIndex]
    omega
  | startWork w added unstarted =>
    have start := startEffort_eq acyclic w
    simp [effort]
    omega
  | startRefused w added started =>
    have start := startEffort_eq acyclic w
    simp [effort]
    omega
  | prefetched w => simp [effort,taskEffort,prefetchEffort]
  | prefetch w g gs =>
    simp [effort,taskEffort,prefetchEffort,Shared.hold]
    omega
  | runEmpty p empty | runAsync p nonempty =>
    have some := path p 0
    simp [effort,taskEffort,Shared.setList]
    omega
  | runFatal p i fatal =>
    have some := path p i
    simp [effort]
    omega
  | filterStopped p i e label at_i stopped =>
    have some := path p (i + 1)
    simp [effort]
    omega
  | _ =>
    simp [effort,taskEffort,launchEffort,workEffort,Shared.hold,Shared.drop,Shared.request,
      Shared.dependentTaskFailed,Shared.fail]
    try omega

/-- What is left at a frame depends on how far the paths are whose tasks it holds. -/
theorem effort_index (acyclic : job.Acyclic) (follows : Nat) {before after : Nat → Nat} {g : Frame L D E}
    (same : ∀ p, 0 < owns (.nextFilter p) g + acting p g → after p = before p) :
    effort acyclic follows after g = effort acyclic follows before g := by
  have task (t : TaskId L D) (held : ∀ p, t = .nextFilter p → 0 < owns (.nextFilter p) g + acting p g) :
      taskEffort acyclic follows after t = taskEffort acyclic follows before t := by
    cases t with
    | nextFilter p => rw [taskEffort,taskEffort,same p (held p rfl)]
    | _ => rfl
  cases g with
  | doWorkAsync w t | doneWaitingTask t e | decrement t | node l t | execute t =>
    simp only [effort]
    rw [task t]
    rintro p rfl
    simp [owns,acting]
  | _ => rfl

/-- A reaction leaves alone what the other frames have to do. -/
theorem effort_rest (acyclic : job.Acyclic) (follows : Nat) (counts : Counts job sh (f ::ₘ rest))
    (reacts : Reacts job sh f r) : weigh (effort acyclic follows r.shared.index) rest =
      weigh (effort acyclic follows sh.index) rest := by
  refine congrArg Multiset.sum (Multiset.map_congr rfl fun g member => ?_)
  exact effort_index acyclic follows fun p busy => index_react counts reacts member busy

/-- What waits in a list for its module or path. -/
def Parked : Frame L D E → Prop
  | .node _ _ => True
  | _ => False

/-- Nothing that is called is in a list. -/
theorem calls_go (reacts : Reacts job sh f r) : ∀ g ∈ r.calls, ¬Parked g := by
  cases reacts <;> simp [Parked]

/-- Whatever is not in a list can act. -/
theorem goes_on (closed : job.Closed) (sourced : Sourced job f) (placed : Placed job sh log f)
    (goes : ¬Parked f) : ∃ r, react job sh f 0 = some r := by
  cases f with
  | runPaths =>
    simp only [react]
    split <;> exact ⟨_,rfl⟩
  | launch ps => cases ps <;> exact ⟨_,rfl⟩
  | runFilterAsync p i =>
    have inside : i < (job.path p).length := placed.2.1
    have here : (job.path p)[i]? = some (job.path p)[i] := List.getElem?_eq_getElem inside
    simp only [react,here]
    split <;> exact ⟨_,rfl⟩
  | doWorkAsync w t =>
    have known : (job.module w).isNone = false := by
      simpa [Option.isSome_iff_ne_none] using closed.known sourced
    simp only [react,known]
    split
    · contradiction
    · split <;> exact ⟨_,rfl⟩
  | startWork w added =>
    simp only [react]
    split <;> exact ⟨_,rfl⟩
  | prefetch w gs => cases gs <;> exact ⟨_,rfl⟩
  | node l t => exact absurd trivial goes
  | execute t =>
    cases t with
    | runModule w =>
      simp only [react]
      split <;> exact ⟨_,rfl⟩
    | _ => exact ⟨_,rfl⟩
  | runModule w e => cases e <;> exact ⟨_,rfl⟩
  | body w gs values => cases gs <;> exact ⟨_,rfl⟩
  | filterFinished p i e =>
    obtain ⟨_,⟨label,at_i,_⟩,_⟩ := placed
    simp only [react,at_i]
    split <;> exact ⟨_,rfl⟩
  | _ => exact ⟨_,rfl⟩

end Steps

end ToyMtFramework.Schedule
