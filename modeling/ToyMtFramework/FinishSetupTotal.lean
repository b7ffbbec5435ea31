import ToyMtFramework.FinishSetupExact

/-! When `finishSetup` ends without the result of an unsuccessful lookup. -/
namespace ToyMtFramework.FinishSetup
open EventProcessor GuardedSearch Relation

variable {L D : Type} [LinearOrder L] {ep : EventProcessor L D}

/-- The call ends at some depth, and not in the use of a missing entry. -/
def Total (ep : EventProcessor L D) : Prop :=
  ∃ depth, finishSetup depth ep ≠ .error .tooDeep ∧ finishSetup depth ep ≠ .error .badLookup

/-- A module that the search for `s` looks through: `s` reads it, or all ways up from it end at `s`. -/
def LooksThrough (ep : EventProcessor L D) (s m : Module L D) : Prop :=
  ep.Prefetches s m ∨ Enclosed (FinishSetup.consumers ep) s.id m.id

/-- From what a module might get: the ways up are decided, and what is looked through has no cycle. -/
structure Settles (ep : EventProcessor L D) (s : Module L D) : Prop where
  decided : ∀ m, ep.MightReach s m →
    m.Leaf ∨ LooksThrough ep s m ∨ Escapes (FinishSetup.consumers ep) s.id m.id
  acyclic : ∀ m, ep.MightReach s m → ¬TransGen (fun p q => ep.Depends p q ∧ LooksThrough ep s p) m m

theorem passed_iff (resolved : ep.Resolved) {s : Module L D} (starts : s ∈ ep.modules) {depth : Nat}
    {already : Finset Nat} (ran : recursivelyCheckPrefetchItems ep.find depth s ∅ = .ok already)
    {m : Module L D} (member : m ∈ ep.modules) :
    Passed (FinishSetup.consumers ep) s.id already m ↔ m.Leaf ∨ LooksThrough ep s m := by
  have prefetched : m.id ∈ already ↔ ep.Prefetches s m := by
    rw [prefetched_eq resolved starts ran]
    constructor
    · rintro ⟨p,direct,same⟩
      rwa [id_injective (Depends.right (.inl direct)) member same] at direct
    · exact fun direct => ⟨m,direct,rfl⟩
  rw [Passed,LooksThrough,prefetched]

/-- What the loop of `correctPossibleDeadlocks` needs in order to end. -/
theorem settles_iff (resolved : ep.Resolved) {s : Module L D} (starts : s ∈ ep.modules) {depth : Nat}
    {already : Finset Nat} (ran : recursivelyCheckPrefetchItems ep.find depth s ∅ = .ok already) :
    (∃ depth set, forEach ep.find (check (FinishSetup.consumers ep) s.id already ep depth) s.mightGet ∅ = .ok set) ↔
      Settles ep s := by
  constructor
  · rintro ⟨depth,set,looped⟩
    obtain ⟨sound,explored,-⟩ := checkMightGet_ran starts looped
    constructor
    · intro m reach
      rcases (explored m reach).cases with found | passed
      · exact .inr (.inr (sound m found).2.2)
      · exact ((passed_iff resolved starts ran reach.listed).mp passed).imp_right .inl
    · intro m reach cycle
      refine (explored m reach).no_cycle (fun p found => (sound p found).not_passed) ?_
      refine TransGen.mono ?_ m m cycle
      rintro p q ⟨depends,through⟩
      exact ⟨depends,(passed_iff resolved starts ran depends.left).mpr (.inr through)⟩
  · intro settles
    refine checkMightGet_ends resolved starts ?_ ?_
    · intro p reach inner
      rw [← or_assoc]
      rcases settles.decided p reach with leaf | through | escapes
      · exact absurd leaf inner
      · exact .inl (((passed_iff resolved starts ran reach.listed).mpr (.inr through)).resolve_left inner)
      · exact .inr escapes
    · refine Acyclic.wellFounded_of_acyclic ((producers_finite ep).subset ?_) ?_
      · rintro q ⟨p,-,depends,-⟩
        exact ⟨p,depends⟩
      · intro m cycle
        obtain ⟨p,⟨reach,-⟩,-⟩ := TransGen.head'_iff.mp (transGen_swap.mp cycle)
        refine settles.acyclic m reach (TransGen.mono ?_ m m (transGen_swap.mp cycle))
        rintro p q ⟨reached,depends,passed⟩
        refine ⟨depends,((passed_iff resolved starts ran depends.left).mp passed).resolve_left ?_⟩
        rintro ⟨mights,prefetches⟩
        obtain ⟨-,getter,own,-⟩ := (depends_iff ep p q).mp depends
        rw [mights,prefetches] at own
        exact absurd own List.not_mem_nil

theorem mightGet_known (resolved : ep.Resolved) {s : Module L D} (starts : s ∈ ep.modules) (getter : L × D)
    (own : getter ∈ s.mightGet) : (ep.find getter.1).isSome :=
  resolved s starts getter (List.mem_append_right _ own)

theorem correctPossibleDeadlocks_ran (resolved : ep.Resolved) {s : Module L D} (starts : s ∈ ep.modules)
    {depth : Nat} {ids : List Nat}
    (ran : correctPossibleDeadlocks ep.find (fun id => listed (FinishSetup.consumers ep id)) depth s = .ok ids) :
    ∃ already set, recursivelyCheckPrefetchItems ep.find depth s ∅ = .ok already ∧
      forEach ep.find (check (FinishSetup.consumers ep) s.id already ep depth) s.mightGet ∅ = .ok set ∧
      ids = set.sort (· ≤ ·) := by
  rw [correctPossibleDeadlocks] at ran
  cases prefetched : recursivelyCheckPrefetchItems ep.find depth s ∅ with
  | error stop => simp [prefetched,bind,Except.bind] at ran
  | ok already =>
    simp only [prefetched,bind,Except.bind,checkMightGet_eq (mightGet_known resolved starts)] at ran
    cases looped : forEach ep.find (check (FinishSetup.consumers ep) s.id already ep depth) s.mightGet ∅ with
    | error stop => simp [looped] at ran
    | ok set =>
      simp only [looped,pure,Except.pure,Except.ok.injEq] at ran
      exact ⟨already,set,rfl,looped,ran.symm⟩

theorem correctPossibleDeadlocks_ends (resolved : ep.Resolved) {s : Module L D} (starts : s ∈ ep.modules) :
    (∃ depth ids, correctPossibleDeadlocks ep.find (fun id => listed (FinishSetup.consumers ep id)) depth s =
      .ok ids) ↔ Settles ep s := by
  constructor
  · rintro ⟨depth,ids,ran⟩
    obtain ⟨already,set,first,second,-⟩ := correctPossibleDeadlocks_ran resolved starts ran
    exact (settles_iff resolved starts first).mp ⟨depth,set,second⟩
  · intro settles
    obtain ⟨already,first,-⟩ := prefetched_direct resolved starts 0
    obtain ⟨depth,set,looped⟩ := (settles_iff resolved starts first).mpr settles
    refine ⟨max 2 depth,set.sort (· ≤ ·),?_⟩
    refine bind_ran (recursivelyCheckPrefetchItems_deeper (le_max_left 2 depth) first) (bind_ran ?_ rfl)
    rw [checkMightGet_eq (mightGet_known resolved starts)]
    exact forEach_check_mono (le_max_right 2 depth) looped

theorem correctPossibleDeadlocks_deeper (resolved : ep.Resolved) {s : Module L D} (starts : s ∈ ep.modules)
    {depth more : Nat} (deeper : depth ≤ more) {ids : List Nat}
    (ran : correctPossibleDeadlocks ep.find (fun id => listed (FinishSetup.consumers ep id)) depth s = .ok ids) :
    correctPossibleDeadlocks ep.find (fun id => listed (FinishSetup.consumers ep id)) more s = .ok ids := by
  obtain ⟨already,set,first,second,rfl⟩ := correctPossibleDeadlocks_ran resolved starts ran
  refine bind_ran (recursivelyCheckPrefetchItems_deeper deeper first) (bind_ran ?_ rfl)
  rw [checkMightGet_eq (mightGet_known resolved starts)]
  exact forEach_check_mono deeper second

/-- Only the loop of `correctPossibleDeadlocks` has an assertion. -/
theorem alternateDependencyPaths_error {parentID : Nat} {deps : Dependencies} (depth id : Nat) (stop : Stop)
    (ran : alternateDependencyPaths parentID deps depth id = .error stop) : stop ≠ .assertionFailed := by
  induction depth generalizing id stop with
  | zero =>
    rw [alternateDependencyPaths,Except.error.injEq] at ran
    rw [← ran]
    simp
  | succ depth ih =>
    rw [alternateDependencyPaths] at ran
    split at ran
    · simp at ran
    · refine firstTrue_error (P := (· ≠ .assertionFailed)) ?_ ran
      intro parent stop tested
      split at tested
      · exact ih parent stop tested
      · simp at tested

theorem check_error {consumers : Nat → List Nat} {start : Nat} {already : Finset Nat} (depth : Nat)
    (m : Module L D) (set : Finset Nat) (stop : Stop)
    (ran : check consumers start already ep depth m set = .error stop) : stop ≠ .assertionFailed := by
  induction depth generalizing m set stop with
  | zero =>
    rw [check,recursivelyCheckGetItems,Except.error.injEq] at ran
    rw [← ran]
    simp
  | succ depth ih =>
    rw [check,recursivelyCheckGetItems] at ran
    split at ran
    · simp at ran
    · split at ran
      · simp at ran
      · cases tested : isToCheck start already (fun id => listed (consumers id)) depth m.id with
        | error first =>
          simp only [tested,bind,Except.bind,Except.error.injEq] at ran
          subst ran
          unfold isToCheck at tested
          split at tested
          · exact alternateDependencyPaths_error depth m.id first tested
          · simp at tested
        | ok found =>
          simp only [tested,bind,Except.bind] at ran
          split at ran
          · rename_i first looped
            rw [Except.error.injEq] at ran
            subst ran
            exact forEach_error (P := (· ≠ .assertionFailed)) (by simp) ih looped
          · exact forEach_error (P := (· ≠ .assertionFailed)) (by simp) ih ran

omit [LinearOrder L] in
theorem recursivelyCheckPrefetchItems_error {find : L → Option (Module L D)} (depth : Nat) (m : Module L D)
    (set : Finset Nat) (stop : Stop)
    (ran : recursivelyCheckPrefetchItems find depth m set = .error stop) : stop ≠ .assertionFailed := by
  induction depth generalizing m set stop with
  | zero =>
    rw [recursivelyCheckPrefetchItems,Except.error.injEq] at ran
    rw [← ran]
    simp
  | succ depth ih =>
    rw [recursivelyCheckPrefetchItems] at ran
    split at ran
    · simp at ran
    · split at ran
      · exact forEach_error (P := (· ≠ .assertionFailed)) (by simp) (fun p s => ih p _) ran
      · simp at ran

theorem correctPossibleDeadlocks_error (resolved : ep.Resolved) {s : Module L D} (starts : s ∈ ep.modules)
    {depth : Nat} {stop : Stop}
    (ran : correctPossibleDeadlocks ep.find (fun id => listed (FinishSetup.consumers ep id)) depth s =
      .error stop) : stop ≠ .assertionFailed := by
  rw [correctPossibleDeadlocks] at ran
  cases prefetched : recursivelyCheckPrefetchItems ep.find depth s ∅ with
  | error first =>
    simp only [prefetched,bind,Except.bind,Except.error.injEq] at ran
    exact ran ▸ recursivelyCheckPrefetchItems_error depth s ∅ first prefetched
  | ok already =>
    simp only [prefetched,bind,Except.bind,checkMightGet_eq (mightGet_known resolved starts)] at ran
    cases looped : forEach ep.find (check (FinishSetup.consumers ep) s.id already ep depth) s.mightGet ∅ with
    | error first =>
      simp only [looped,Except.error.injEq] at ran
      exact ran ▸ forEach_error (P := (· ≠ .assertionFailed)) (by simp) (check_error depth) looped
    | ok set => simp [looped,pure,Except.pure] at ran

section All
variable {ms : List (Module L D)}

theorem correctAll_error (resolved : ep.Resolved) (starts : ∀ m ∈ ms, m ∈ ep.modules) {depth : Nat} {stop : Stop}
    (ran : correctAll ep.find (fun id => listed (FinishSetup.consumers ep id)) depth ms = .error stop) :
    stop ≠ .assertionFailed := by
  induction ms with
  | nil => simp [correctAll] at ran
  | cons m ms ih =>
    rw [correctAll] at ran
    cases checked : correctPossibleDeadlocks ep.find (fun id => listed (FinishSetup.consumers ep id)) depth m with
    | error first =>
      simp only [checked,bind,Except.bind,Except.error.injEq] at ran
      exact ran ▸ correctPossibleDeadlocks_error resolved (starts m List.mem_cons_self) checked
    | ok ids =>
      cases rest : correctAll ep.find (fun id => listed (FinishSetup.consumers ep id)) depth ms with
      | error later =>
        simp only [checked,rest,bind,Except.bind,Except.error.injEq] at ran
        subst ran
        exact ih (fun p member => starts p (List.mem_cons_of_mem m member)) rest
      | ok result => simp [checked,rest,bind,Except.bind,pure,Except.pure] at ran

theorem correctAll_settles (resolved : ep.Resolved) (starts : ∀ m ∈ ms, m ∈ ep.modules) {depth : Nat}
    {result : List (Nat × List Nat)}
    (ran : correctAll ep.find (fun id => listed (FinishSetup.consumers ep id)) depth ms = .ok result) :
    ∀ m ∈ ms, Settles ep m := by
  induction ms generalizing result with
  | nil => exact fun m member => absurd member List.not_mem_nil
  | cons m ms ih =>
    rw [correctAll] at ran
    have first := starts m List.mem_cons_self
    cases checked : correctPossibleDeadlocks ep.find (fun id => listed (FinishSetup.consumers ep id)) depth m with
    | error stop => simp [checked,bind,Except.bind] at ran
    | ok ids =>
      cases rest : correctAll ep.find (fun id => listed (FinishSetup.consumers ep id)) depth ms with
      | error stop => simp [checked,rest,bind,Except.bind] at ran
      | ok others =>
        have settles := (correctPossibleDeadlocks_ends resolved first).mp ⟨depth,ids,checked⟩
        exact List.forall_mem_cons.mpr ⟨settles,ih (fun p member => starts p (List.mem_cons_of_mem m member)) rest⟩

theorem correctAll_ends (resolved : ep.Resolved) (starts : ∀ m ∈ ms, m ∈ ep.modules)
    (settles : ∀ m ∈ ms, Settles ep m) : ∃ depth, ∀ more, depth ≤ more → ∃ result,
      correctAll ep.find (fun id => listed (FinishSetup.consumers ep id)) more ms = .ok result := by
  induction ms with
  | nil => exact ⟨0,fun more _ => ⟨[],rfl⟩⟩
  | cons m ms ih =>
    have first := starts m List.mem_cons_self
    obtain ⟨depth,ids,checked⟩ := (correctPossibleDeadlocks_ends resolved first).mpr (settles m List.mem_cons_self)
    obtain ⟨enough,rest⟩ := ih (fun p member => starts p (List.mem_cons_of_mem m member))
      fun p member => settles p (List.mem_cons_of_mem m member)
    refine ⟨max depth enough,fun more deeper => ?_⟩
    obtain ⟨result,others⟩ := rest more ((le_max_right depth enough).trans deeper)
    exact ⟨(m.id,ids) :: result,bind_ran
      (correctPossibleDeadlocks_deeper resolved first ((le_max_left depth enough).trans deeper) checked)
      (bind_ran others rfl)⟩

end All

theorem finishSetup_resolved (resolved : ep.Resolved) (depth : Nat) : finishSetup depth ep =
    correctAll ep.find (fun id => listed (FinishSetup.consumers ep id)) depth ep.modules := by
  rw [finishSetup,addAllDependencies_consumers resolved]
  rfl

theorem finishSetup_unresolved (unknown : ¬ep.Resolved) (depth : Nat) :
    finishSetup depth ep = .error .badLookup := by
  rw [finishSetup,addAllDependencies_unresolved ep.modules _ unknown]
  rfl

theorem Total.settles (total : Total ep) : ep.Resolved ∧ ∀ s ∈ ep.modules, Settles ep s := by
  obtain ⟨depth,ended,known⟩ := total
  have resolved : ep.Resolved := by
    by_contra unknown
    exact known (finishSetup_unresolved unknown depth)
  rw [finishSetup_resolved resolved] at ended known
  refine ⟨resolved,?_⟩
  cases ran : correctAll ep.find (fun id => listed (FinishSetup.consumers ep id)) depth ep.modules with
  | ok result => exact correctAll_settles resolved (fun m member => member) ran
  | error stop =>
    have asserted := correctAll_error resolved (fun m member => member) ran
    rw [ran] at ended known
    cases stop with
    | badLookup => exact absurd rfl known
    | assertionFailed => exact absurd rfl asserted
    | tooDeep => exact absurd rfl ended

theorem total_of_settles (resolved : ep.Resolved) (settles : ∀ s ∈ ep.modules, Settles ep s) : Total ep := by
  obtain ⟨depth,ran⟩ := correctAll_ends resolved (fun m member => member) settles
  obtain ⟨result,ended⟩ := ran depth (Nat.le_refl depth)
  refine ⟨depth,?_,?_⟩ <;> rw [finishSetup_resolved resolved,ended] <;> simp

theorem finishSetup_total_iff (ep : EventProcessor L D) :
    Total ep ↔ ep.Resolved ∧ ∀ s ∈ ep.modules, Settles ep s := by
  constructor
  · exact Total.settles
  · rintro ⟨resolved,settles⟩
    exact total_of_settles resolved settles

/-- Without cycles the setup ends. -/
theorem total_of_acyclic (resolved : ep.Resolved) (acyclic : ep.Acyclic) : Total ep := by
  refine total_of_settles resolved fun s starts => ⟨?_,?_⟩
  · intro m reach
    exact .inr ((decided_of_acyclic acyclic s.id reach.listed).imp_left .inr)
  · intro m reach cycle
    exact acyclic m (TransGen.mono (fun p q step => step.1) m m cycle)

def unknownLabel : EventProcessor Nat Nat :=
  EventProcessor.empty.addFilter 0 [(1,0)] []

def mightGetCycle : EventProcessor Nat Nat :=
  (EventProcessor.empty.addProducer 0 [] [(1,0)]).addProducer 1 [] [(0,0)]

theorem unknownLabel_unresolved : ¬unknownLabel.Resolved := by
  unfold EventProcessor.Resolved
  decide

theorem mightGetCycle_unsettled : ∃ s ∈ mightGetCycle.modules, ¬Settles mightGetCycle s := by
  have first : (⟨0,0,[],[(1,0)]⟩ : Module Nat Nat) ∈ mightGetCycle.modules := List.mem_cons_self
  have second : (⟨1,1,[],[(0,0)]⟩ : Module Nat Nat) ∈ mightGetCycle.modules :=
    List.mem_cons_of_mem _ List.mem_cons_self
  have forth : mightGetCycle.MightGet ⟨0,0,[],[(1,0)]⟩ ⟨1,1,[],[(0,0)]⟩ := ⟨first,(1,0),List.mem_cons_self,rfl⟩
  have back : mightGetCycle.MightGet ⟨1,1,[],[(0,0)]⟩ ⟨0,0,[],[(1,0)]⟩ := ⟨second,(0,0),List.mem_cons_self,rfl⟩
  have enclosed : Enclosed (FinishSetup.consumers mightGetCycle) 0 1 :=
    .under (by decide) fun b above other => absurd (List.mem_singleton.mp above) other
  have enclosedStart : Enclosed (FinishSetup.consumers mightGetCycle) 0 0 :=
    .under (by decide) fun b above _ => (List.mem_singleton.mp above).symm ▸ enclosed
  refine ⟨⟨0,0,[],[(1,0)]⟩,first,fun settles => ?_⟩
  refine settles.acyclic ⟨1,1,[],[(0,0)]⟩ ⟨_,forth,.refl⟩ ?_
  exact (TransGen.single ⟨.inr back,.inr enclosed⟩).tail ⟨.inr forth,.inr enclosedStart⟩

/-- One setup uses the entry of a label that is not there, the other one never ends. -/
theorem finishSetup_not_total : ¬Total unknownLabel ∧ ¬Total mightGetCycle := by
  constructor
  · exact fun total => unknownLabel_unresolved total.settles.1
  · intro total
    obtain ⟨s,starts,unsettled⟩ := mightGetCycle_unsettled
    exact unsettled (total.settles.2 s starts)

end ToyMtFramework.FinishSetup
