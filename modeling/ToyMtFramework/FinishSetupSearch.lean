import ToyMtFramework.FinishSetupPrefetch

/-! What the two recursions behind `correctPossibleDeadlocks` find when they end, and
when they end. Upward the search is for a way around the module that starts it, and
downward it passes modules that are prefetched already or have no such way. -/
namespace ToyMtFramework.FinishSetup
open EventProcessor GuardedSearch Relation

section Upward
variable {test : Nat → Except Stop Bool}

theorem firstTrue_false {parents : List Nat} (all : ∀ p ∈ parents, test p = .ok false) :
    firstTrue test parents = .ok false := by
  induction parents with
  | nil => rfl
  | cons parent parents ih =>
    simp only [firstTrue,all parent List.mem_cons_self,bind,Except.bind]
    exact ih fun p member => all p (List.mem_cons_of_mem parent member)

theorem firstTrue_true {before after : List Nat} {p : Nat} (all : ∀ q ∈ before, test q = .ok false)
    (found : test p = .ok true) : firstTrue test (before ++ p :: after) = .ok true := by
  induction before with
  | nil =>
    simp only [List.nil_append,firstTrue,found,bind,Except.bind]
    rfl
  | cons parent parents ih =>
    simp only [List.cons_append,firstTrue,all parent List.mem_cons_self,bind,Except.bind]
    exact ih fun q member => all q (List.mem_cons_of_mem parent member)

theorem firstTrue_ran {parents : List Nat} {found : Bool} (ran : firstTrue test parents = .ok found) :
    (found = true ∧ ∃ before p after, parents = before ++ p :: after ∧
        (∀ q ∈ before, test q = .ok false) ∧ test p = .ok true) ∨
      (found = false ∧ ∀ p ∈ parents, test p = .ok false) := by
  induction parents with
  | nil =>
    rw [firstTrue,Except.ok.injEq] at ran
    exact .inr ⟨ran.symm,fun p member => absurd member List.not_mem_nil⟩
  | cons parent parents ih =>
    simp only [firstTrue] at ran
    cases tested : test parent with
    | error stop => simp [tested,bind,Except.bind] at ran
    | ok first =>
      cases first with
      | true =>
        simp only [tested,bind,Except.bind,if_true,pure,Except.pure,Except.ok.injEq] at ran
        exact .inl ⟨ran.symm,[],parent,parents,rfl,fun q member => absurd member List.not_mem_nil,tested⟩
      | false =>
        simp only [tested,bind,Except.bind,Bool.false_eq_true,if_false] at ran
        rcases ih ran with ⟨yes,before,p,after,split,all,last⟩ | ⟨no,all⟩
        · refine .inl ⟨yes,parent :: before,p,after,?_,List.forall_mem_cons.mpr ⟨tested,all⟩,last⟩
          rw [split,List.cons_append]
        · exact .inr ⟨no,List.forall_mem_cons.mpr ⟨tested,all⟩⟩

theorem firstTrue_mono {more : Nat → Except Stop Bool} (grows : ∀ p found, test p = .ok found → more p = .ok found)
    {parents : List Nat} {found : Bool} (ran : firstTrue test parents = .ok found) :
    firstTrue more parents = .ok found := by
  rcases firstTrue_ran ran with ⟨rfl,before,p,after,rfl,all,last⟩ | ⟨rfl,all⟩
  · exact firstTrue_true (fun q member => grows q false (all q member)) (grows p true last)
  · exact firstTrue_false fun p member => grows p false (all p member)

theorem firstTrue_error {P : Stop → Prop} (each : ∀ p stop, test p = .error stop → P stop) {parents : List Nat}
    {stop : Stop} (ran : firstTrue test parents = .error stop) : P stop := by
  induction parents with
  | nil => simp [firstTrue] at ran
  | cons parent parents ih =>
    rw [firstTrue] at ran
    cases tested : test parent with
    | error first =>
      simp only [tested,bind,Except.bind,Except.error.injEq] at ran
      exact ran ▸ each parent first tested
    | ok found =>
      cases found with
      | true => simp [tested,bind,Except.bind,pure,Except.pure] at ran
      | false =>
        simp only [tested,bind,Except.bind,Bool.false_eq_true,if_false] at ran
        exact ih ran

variable {parentID : Nat} {consumers : Nat → List Nat}

def testParent (parentID : Nat) (deps : Dependencies) (depth parent : Nat) : Except Stop Bool :=
  if parent ≠ parentID then alternateDependencyPaths parentID deps depth parent else .ok false

theorem alternateDependencyPaths_succ (depth id : Nat) :
    alternateDependencyPaths parentID (fun id => listed (consumers id)) (depth + 1) id =
      if consumers id = [] then .ok true
      else firstTrue (testParent parentID (fun id => listed (consumers id)) depth) (consumers id) := by
  rw [alternateDependencyPaths,listed]
  split
  · rename_i none
    split at none
    · rename_i nothing
      rw [if_pos nothing]
    · exact absurd none (Option.some_ne_none _)
  · rename_i parents some
    split at some
    · exact absurd some.symm (Option.some_ne_none _)
    · rename_i something
      rw [Option.some.injEq] at some
      rw [if_neg something,some]
      rfl

theorem alternateDependencyPaths_mono (depth id : Nat) (found : Bool)
    (ran : alternateDependencyPaths parentID (fun id => listed (consumers id)) depth id = .ok found) :
    alternateDependencyPaths parentID (fun id => listed (consumers id)) (depth + 1) id = .ok found := by
  induction depth generalizing id found with
  | zero => simp [alternateDependencyPaths] at ran
  | succ depth ih =>
    rw [alternateDependencyPaths_succ] at ran ⊢
    split
    · rename_i nothing
      rwa [if_pos nothing] at ran
    · rename_i something
      rw [if_neg something] at ran
      refine firstTrue_mono ?_ ran
      intro p found tested
      unfold testParent at tested ⊢
      split
      · rename_i other
        rw [if_pos other] at tested
        exact ih p found tested
      · rename_i same
        rwa [if_neg same] at tested

theorem alternateDependencyPaths_deeper {depth more id : Nat} {found : Bool} (deeper : depth ≤ more)
    (ran : alternateDependencyPaths parentID (fun id => listed (consumers id)) depth id = .ok found) :
    alternateDependencyPaths parentID (fun id => listed (consumers id)) more id = .ok found := by
  induction deeper with
  | refl => exact ran
  | step _ ih => exact alternateDependencyPaths_mono _ _ _ ih

theorem alternateDependencyPaths_ran {depth id : Nat} {found : Bool}
    (ran : alternateDependencyPaths parentID (fun id => listed (consumers id)) depth id = .ok found) :
    (found = true ∧ Escapes consumers parentID id) ∨ (found = false ∧ Enclosed consumers parentID id) := by
  induction depth generalizing id found with
  | zero => simp [alternateDependencyPaths] at ran
  | succ depth ih =>
    rw [alternateDependencyPaths_succ] at ran
    have closed (q : Nat) (tested : testParent parentID (fun id => listed (consumers id)) depth q = .ok false)
        (other : q ≠ parentID) : Enclosed consumers parentID q := by
      rw [testParent,if_pos other] at tested
      exact ((ih tested).resolve_left fun yes => Bool.false_ne_true yes.1).2
    split at ran
    · rename_i nothing
      rw [Except.ok.injEq] at ran
      exact .inl ⟨ran.symm,.top nothing⟩
    · rename_i something
      rcases firstTrue_ran ran with ⟨yes,before,p,after,split,all,last⟩ | ⟨no,all⟩
      · unfold testParent at last
        split at last
        · rename_i other
          have escapes := ((ih last).resolve_right fun no => Bool.false_ne_true no.1.symm).2
          exact .inl ⟨yes,.first split (fun q member => closed q (all q member)) other escapes⟩
        · simp at last
      · exact .inr ⟨no,.under something fun p member => closed p (all p member)⟩

/-- One depth is enough for all of a list. -/
theorem common_depth {P : Nat → Nat → Prop} (mono : ∀ {depth more id}, depth ≤ more → P depth id → P more id)
    {ids : List Nat} (each : ∀ id ∈ ids, ∃ depth, P depth id) : ∃ depth, ∀ id ∈ ids, P depth id := by
  induction ids with
  | nil => exact ⟨0,fun id member => absurd member List.not_mem_nil⟩
  | cons id ids ih =>
    obtain ⟨depth,first⟩ := each id List.mem_cons_self
    obtain ⟨more,rest⟩ := ih fun id member => each id (List.mem_cons_of_mem _ member)
    refine ⟨max depth more,List.forall_mem_cons.mpr ⟨mono (Nat.le_max_left depth more) first,?_⟩⟩
    exact fun id member => mono (Nat.le_max_right depth more) (rest id member)

theorem testParent_depth {ids : List Nat} (each : ∀ p ∈ ids, p ≠ parentID →
    ∃ depth, alternateDependencyPaths parentID (fun id => listed (consumers id)) depth p = .ok false) :
    ∃ depth, ∀ more, depth ≤ more → ∀ p ∈ ids,
      testParent parentID (fun id => listed (consumers id)) more p = .ok false := by
  obtain ⟨depth,all⟩ := common_depth (P := fun depth p => p ≠ parentID →
      alternateDependencyPaths parentID (fun id => listed (consumers id)) depth p = .ok false)
    (fun deeper ran other => alternateDependencyPaths_deeper deeper (ran other)) fun p member => by
      by_cases other : p ≠ parentID
      · obtain ⟨depth,ran⟩ := each p member other
        exact ⟨depth,fun _ => ran⟩
      · exact ⟨0,fun same => absurd same other⟩
  refine ⟨depth,fun more deeper p member => ?_⟩
  rw [testParent]
  split
  · rename_i other
    exact alternateDependencyPaths_deeper deeper (all p member other)
  · rfl

theorem enclosed_ran {id : Nat} (enclosed : Enclosed consumers parentID id) :
    ∃ depth, alternateDependencyPaths parentID (fun id => listed (consumers id)) depth id = .ok false := by
  induction enclosed with
  | under something all ih =>
    obtain ⟨depth,tests⟩ := testParent_depth ih
    refine ⟨depth + 1,?_⟩
    rw [alternateDependencyPaths_succ,if_neg something]
    exact firstTrue_false (tests depth (Nat.le_refl depth))

theorem escapes_ran {id : Nat} (escapes : Escapes consumers parentID id) :
    ∃ depth, alternateDependencyPaths parentID (fun id => listed (consumers id)) depth id = .ok true := by
  induction escapes with
  | top nothing =>
    refine ⟨1,?_⟩
    rw [alternateDependencyPaths_succ,if_pos nothing]
  | first split closed other _ ih =>
    obtain ⟨depth,tests⟩ := testParent_depth fun q member distinct => enclosed_ran (closed q member distinct)
    obtain ⟨more,ran⟩ := ih
    refine ⟨max depth more + 1,?_⟩
    rw [alternateDependencyPaths_succ,split,if_neg (List.append_ne_nil_of_right_ne_nil _ (List.cons_ne_nil _ _))]
    refine firstTrue_true (tests _ (Nat.le_max_left depth more)) ?_
    rw [testParent,if_pos other]
    exact alternateDependencyPaths_deeper (Nat.le_max_right depth more) ran

end Upward

end ToyMtFramework.FinishSetup
