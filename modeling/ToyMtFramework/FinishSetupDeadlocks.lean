import ToyMtFramework.FinishSetupSearch
import Mathlib.Data.Finset.Card

/-! What `correctPossibleDeadlocks` collects for a module, and when it ends. -/
namespace ToyMtFramework.FinishSetup
open EventProcessor GuardedSearch Relation

variable {L D : Type} [LinearOrder L]

def Module.Leaf (m : Module L D) : Prop :=
  m.mightGet = [] ∧ m.prefetchItems = []

theorem bind_ran {α β : Type} {call : Except Stop α} {rest : α → Except Stop β} {a : α} {b : β}
    (first : call = .ok a) (second : rest a = .ok b) : (call >>= rest) = .ok b := by
  rw [first]
  exact second

section Downward
variable (consumers : Nat → List Nat) (start : Nat) (already : Finset Nat)

def Marked (m : Module L D) : Prop :=
  ¬m.Leaf ∧ m.id ∉ already ∧ Escapes consumers start m.id

def Passed (m : Module L D) : Prop :=
  m.Leaf ∨ m.id ∈ already ∨ Enclosed consumers start m.id

variable (ep : EventProcessor L D)

def Collected (set : Finset Nat) (m : Module L D) : Prop :=
  m ∈ ep.modules ∧ m.id ∈ set

/-- From one set to the next only marked modules are added, and the search has looked below each. -/
structure Collects (Reached : Module L D → Prop) (before after : Finset Nat) : Prop where
  grows : before ⊆ after
  added : ∀ id ∈ after, id ∈ before ∨ ∃ m ∈ ep.modules, m.id = id ∧ Reached m ∧
    Marked consumers start already m ∧
    ∀ p, ep.Depends m p → Explored ep.Depends (Passed consumers start already) (Collected ep after) p

variable {consumers start already ep} {Reached : Module L D → Prop}

omit [LinearOrder L] in
theorem Marked.not_passed {m : Module L D} (marked : Marked consumers start already m) :
    ¬Passed consumers start already m := by
  obtain ⟨inner,absent,escapes⟩ := marked
  rintro (leaf | present | enclosed)
  · exact inner leaf
  · exact absent present
  · exact enclosed.not_escapes escapes

theorem Collected.grow {before after : Finset Nat} (grows : before ⊆ after) (m : Module L D)
    (collected : Collected ep before m) : Collected ep after m :=
  ⟨collected.1,grows collected.2⟩

theorem Collects.refl (set : Finset Nat) : Collects consumers start already ep Reached set set :=
  ⟨Finset.Subset.refl set,fun _ member => .inl member⟩

theorem Collects.trans (a b c : Finset Nat) (first : Collects consumers start already ep Reached a b)
    (second : Collects consumers start already ep Reached b c) :
    Collects consumers start already ep Reached a c where
  grows := first.grows.trans second.grows
  added id member := by
    rcases second.added id member with old | new
    · rcases first.added id old with older | ⟨m,listed,same,reached,marked,below⟩
      · exact .inl older
      · exact .inr ⟨m,listed,same,reached,marked,fun p step =>
          (below p step).mono (Collected.grow second.grows)⟩
    · exact .inr new

omit [LinearOrder L] in
theorem isToCheck_ran {depth id : Nat} {found : Bool}
    (ran : isToCheck start already (fun id => listed (consumers id)) depth id = .ok found) :
    (found = true ∧ id ∉ already ∧ Escapes consumers start id) ∨
      (found = false ∧ (id ∈ already ∨ Enclosed consumers start id)) := by
  unfold isToCheck at ran
  split at ran
  · rename_i absent
    rcases alternateDependencyPaths_ran ran with ⟨yes,escapes⟩ | ⟨no,enclosed⟩
    · exact .inl ⟨yes,absent,escapes⟩
    · exact .inr ⟨no,.inr enclosed⟩
  · rename_i present
    rw [Except.ok.injEq] at ran
    exact .inr ⟨ran.symm,.inl (not_not.mp present)⟩

omit [LinearOrder L] in
theorem isToCheck_mono {depth id : Nat} {found : Bool}
    (ran : isToCheck start already (fun id => listed (consumers id)) depth id = .ok found) :
    isToCheck start already (fun id => listed (consumers id)) (depth + 1) id = .ok found := by
  unfold isToCheck at ran ⊢
  split
  · rename_i absent
    rw [if_pos absent] at ran
    exact alternateDependencyPaths_mono depth id found ran
  · rename_i present
    rwa [if_neg present] at ran

omit [LinearOrder L] in
theorem isToCheck_ends {id : Nat}
    (decided : id ∈ already ∨ Enclosed consumers start id ∨ Escapes consumers start id) :
    ∃ depth found, isToCheck start already (fun id => listed (consumers id)) depth id = .ok found := by
  by_cases absent : id ∉ already
  · simp only [isToCheck,if_pos absent]
    rcases decided with present | enclosed | escapes
    · exact absurd present absent
    · obtain ⟨depth,ran⟩ := enclosed_ran enclosed
      exact ⟨depth,false,ran⟩
    · obtain ⟨depth,ran⟩ := escapes_ran escapes
      exact ⟨depth,true,ran⟩
  · exact ⟨0,false,by rw [isToCheck,if_neg absent]⟩

variable (consumers start already ep) in
def check (depth : Nat) (m : Module L D) (set : Finset Nat) : Except Stop (Finset Nat) :=
  recursivelyCheckGetItems ep.find start already (fun id => listed (consumers id)) depth m set

/-- The three ways through the function. -/
theorem check_succ {depth : Nat} {m : Module L D} {before after : Finset Nat}
    (ran : check consumers start already ep (depth + 1) m before = .ok after) :
    (m.Leaf ∧ after = before) ∨ (¬m.Leaf ∧ m.id ∈ before ∧ after = before) ∨
      (¬m.Leaf ∧ m.id ∉ before ∧ ∃ found middle,
        isToCheck start already (fun id => listed (consumers id)) depth m.id = .ok found ∧
        forEach ep.find (check consumers start already ep depth) m.mightGet
          (if found then insert m.id before else before) = .ok middle ∧
        forEach ep.find (check consumers start already ep depth) m.prefetchItems middle = .ok after) := by
  rw [check,recursivelyCheckGetItems] at ran
  split at ran
  · rename_i leaf
    rw [Except.ok.injEq] at ran
    exact .inl ⟨leaf,ran.symm⟩
  · rename_i inner
    split at ran
    · rename_i seen
      rw [Except.ok.injEq] at ran
      exact .inr (.inl ⟨inner,seen,ran.symm⟩)
    · rename_i unseen
      cases tested : isToCheck start already (fun id => listed (consumers id)) depth m.id with
      | error stop => simp [tested,bind,Except.bind] at ran
      | ok found =>
        simp only [tested,bind,Except.bind] at ran
        split at ran
        · simp at ran
        · rename_i middle looped
          exact .inr (.inr ⟨inner,unseen,found,middle,rfl,looped,ran⟩)

theorem check_leaf {m : Module L D} (leaf : m.Leaf) (depth : Nat) (set : Finset Nat) :
    check consumers start already ep (depth + 1) m set = .ok set := by
  unfold Module.Leaf at leaf
  rw [check,recursivelyCheckGetItems,if_pos leaf]

theorem check_seen {m : Module L D} (inner : ¬m.Leaf) {set : Finset Nat} (seen : m.id ∈ set) (depth : Nat) :
    check consumers start already ep (depth + 1) m set = .ok set := by
  unfold Module.Leaf at inner
  rw [check,recursivelyCheckGetItems,if_neg inner,if_pos seen]

theorem check_new {m : Module L D} (inner : ¬m.Leaf) {before middle after : Finset Nat} {found : Bool}
    (unseen : m.id ∉ before) {depth : Nat}
    (tested : isToCheck start already (fun id => listed (consumers id)) depth m.id = .ok found)
    (first : forEach ep.find (check consumers start already ep depth) m.mightGet
      (if found then insert m.id before else before) = .ok middle)
    (second : forEach ep.find (check consumers start already ep depth) m.prefetchItems middle = .ok after) :
    check consumers start already ep (depth + 1) m before = .ok after := by
  unfold Module.Leaf at inner
  rw [check,recursivelyCheckGetItems,if_neg inner,if_neg unseen]
  exact bind_ran tested (bind_ran first second)

theorem check_mono (depth : Nat) (m : Module L D) (before after : Finset Nat)
    (ran : check consumers start already ep depth m before = .ok after) :
    check consumers start already ep (depth + 1) m before = .ok after := by
  induction depth generalizing m before after with
  | zero => simp [check,recursivelyCheckGetItems] at ran
  | succ depth ih =>
    rcases check_succ ran with ⟨leaf,rfl⟩ | ⟨inner,seen,rfl⟩ | ⟨inner,unseen,found,middle,tested,first,second⟩
    · exact check_leaf leaf _ _
    · exact check_seen inner seen _
    · exact check_new inner unseen (isToCheck_mono tested) (forEach_mono ih first) (forEach_mono ih second)

theorem check_deeper {depth more : Nat} (deeper : depth ≤ more) {m : Module L D} {before after : Finset Nat}
    (ran : check consumers start already ep depth m before = .ok after) :
    check consumers start already ep more m before = .ok after := by
  induction deeper with
  | refl => exact ran
  | step _ ih => exact check_mono _ m before after ih

theorem isToCheck_deeper {depth more : Nat} (deeper : depth ≤ more) {id : Nat} {found : Bool}
    (ran : isToCheck start already (fun id => listed (consumers id)) depth id = .ok found) :
    isToCheck start already (fun id => listed (consumers id)) more id = .ok found := by
  induction deeper with
  | refl => exact ran
  | step _ ih => exact isToCheck_mono ih

/-- The search below a module collects marked modules only and leaves nothing out. -/
theorem check_ran (closed : ∀ m p, Reached m → ep.Depends m p → Reached p) {depth : Nat} {m : Module L D}
    (member : m ∈ ep.modules) (reached : Reached m) {before after : Finset Nat}
    (ran : check consumers start already ep depth m before = .ok after) :
    Collects consumers start already ep Reached before after ∧
      Explored ep.Depends (Passed consumers start already) (Collected ep after) m := by
  induction depth generalizing m before after with
  | zero => simp [check,recursivelyCheckGetItems] at ran
  | succ depth ih =>
    rcases check_succ ran with ⟨leaf,rfl⟩ | ⟨inner,seen,rfl⟩ | ⟨inner,unseen,found,middle,tested,first,second⟩
    · refine ⟨Collects.refl _,.through (.inl leaf) ?_⟩
      intro p depends
      obtain ⟨-,getter,own,-⟩ := (depends_iff ep m p).mp depends
      rw [leaf.1,leaf.2] at own
      exact absurd own List.not_mem_nil
    · exact ⟨Collects.refl _,.collected ⟨member,seen⟩⟩
    · have down (getter : L × D) (own : getter ∈ m.prefetchItems ++ m.mightGet) (p : Module L D)
          (looked : ep.find getter.1 = some p) (s t : Finset Nat)
          (call : check consumers start already ep depth p s = .ok t) :
          Collects consumers start already ep Reached s t ∧
            Explored ep.Depends (Passed consumers start already) (Collected ep t) p := by
        have depends : ep.Depends m p := (depends_iff ep m p).mpr ⟨member,getter,own,looked⟩
        exact ih depends.right (closed m p reached depends) call
      obtain ⟨kept,calls⟩ := forEach_ran Collects.refl Collects.trans (fun getter own p looked s t call =>
        (down getter (List.mem_append_right _ own) p looked s t call).1) first
      obtain ⟨kept',calls'⟩ := forEach_ran Collects.refl Collects.trans (fun getter own p looked s t call =>
        (down getter (List.mem_append_left _ own) p looked s t call).1) second
      have all := Collects.trans _ _ _ kept kept'
      have below (p : Module L D) (depends : ep.Depends m p) :
          Explored ep.Depends (Passed consumers start already) (Collected ep after) p := by
        rcases depends with ⟨-,getter,own,looked⟩ | ⟨-,getter,own,looked⟩
        · obtain ⟨q,s,t,same,-,call,left⟩ := calls' getter own
          obtain rfl := Option.some.inj (looked.symm.trans same)
          exact (down getter (List.mem_append_left _ own) p looked s t call).2.mono (Collected.grow left.grows)
        · obtain ⟨q,s,t,same,-,call,left⟩ := calls getter own
          obtain rfl := Option.some.inj (looked.symm.trans same)
          exact (down getter (List.mem_append_right _ own) p looked s t call).2.mono
            (Collected.grow (left.grows.trans kept'.grows))
      rcases isToCheck_ran tested with ⟨rfl,absent,escapes⟩ | ⟨rfl,passed⟩
      · rw [if_pos rfl] at all
        have own : m.id ∈ after := all.grows (Finset.mem_insert_self m.id before)
        refine ⟨⟨(Finset.subset_insert m.id before).trans all.grows,?_⟩,.collected ⟨member,own⟩⟩
        intro id later
        rcases all.added id later with old | new
        · rcases Finset.mem_insert.mp old with same | older
          · exact .inr ⟨m,member,same.symm,reached,⟨inner,absent,escapes⟩,below⟩
          · exact .inl older
        · exact .inr new
      · rw [if_neg Bool.false_ne_true] at all
        exact ⟨all,.through (.inr passed) below⟩

theorem forEach_check_mono {depth more : Nat} (deeper : depth ≤ more) {getters : List (L × D)}
    {before after : Finset Nat}
    (ran : forEach ep.find (check consumers start already ep depth) getters before = .ok after) :
    forEach ep.find (check consumers start already ep more) getters before = .ok after :=
  forEach_mono (fun _ _ _ => check_deeper deeper) ran

variable (ep) in
def remaining (set : Finset Nat) : Nat :=
  ((ep.modules.map (·.id)).toFinset \ set).card

variable (ep) in
theorem remaining_le {before after : Finset Nat} (grows : before ⊆ after) :
    remaining ep after ≤ remaining ep before :=
  Finset.card_le_card (Finset.sdiff_subset_sdiff (Finset.Subset.refl _) grows)

theorem remaining_insert {m : Module L D} (member : m ∈ ep.modules) {set : Finset Nat} (unseen : m.id ∉ set) :
    remaining ep (insert m.id set) < remaining ep set := by
  have own : m.id ∈ (ep.modules.map (·.id)).toFinset :=
    List.mem_toFinset.mpr (List.mem_map_of_mem member)
  rw [remaining,Finset.sdiff_insert]
  exact Finset.card_erase_lt_of_mem (Finset.mem_sdiff.mpr ⟨own,unseen⟩)

theorem resolved_find (resolved : ep.Resolved) {m : Module L D} (member : m ∈ ep.modules) {getter : L × D}
    (own : getter ∈ m.prefetchItems ++ m.mightGet) : ∃ p, ep.find getter.1 = some p ∧ ep.Depends m p := by
  obtain ⟨p,found⟩ := Option.isSome_iff_exists.mp (resolved m member getter own)
  exact ⟨p,found,(depends_iff ep m p).mpr ⟨member,getter,own,found⟩⟩

/-- The search ends: collecting a module leaves fewer to collect, and modules that are looked through
do not form a cycle. -/
theorem check_ends (resolved : ep.Resolved) (closed : ∀ m p, Reached m → ep.Depends m p → Reached p)
    (decided : ∀ m, Reached m → ¬m.Leaf →
      m.id ∈ already ∨ Enclosed consumers start m.id ∨ Escapes consumers start m.id)
    (founded : WellFounded fun p m => Reached m ∧ ep.Depends m p ∧ Passed consumers start already m)
    (left : Nat) (m : Module L D) (member : m ∈ ep.modules) (reached : Reached m) (before : Finset Nat)
    (few : remaining ep before ≤ left) :
    ∃ depth after, check consumers start already ep depth m before = .ok after ∧ before ⊆ after := by
  induction left using Nat.strong_induction_on generalizing m before with
  | _ left fewer =>
    induction m using founded.induction generalizing before with
    | _ m ih =>
      by_cases leaf : m.Leaf
      · exact ⟨1,before,check_leaf leaf 0 before,Finset.Subset.refl before⟩
      by_cases seen : m.id ∈ before
      · exact ⟨1,before,check_seen leaf seen 0,Finset.Subset.refl before⟩
      obtain ⟨depth,found,tested⟩ := isToCheck_ends (decided m reached leaf)
      -- The sets in which the search goes on below this module.
      have down (p : Module L D) (depends : ep.Depends m p) (set : Finset Nat)
          (above : (if found then insert m.id before else before) ⊆ set) :
          ∃ depth after, check consumers start already ep depth p set = .ok after ∧ set ⊆ after := by
        have small := remaining_le ep above
        rcases isToCheck_ran tested with ⟨rfl,-,-⟩ | ⟨rfl,passed⟩
        · have less := remaining_insert member seen
          rw [if_pos rfl] at small
          exact fewer _ (small.trans_lt (less.trans_le few)) p depends.right (closed m p reached depends) set
            (Nat.le_refl _)
        · rw [if_neg Bool.false_ne_true] at small
          exact ih p ⟨reached,depends,.inr passed⟩ depends.right (closed m p reached depends) set (small.trans few)
      have loop (getters : List (L × D)) (own : ∀ getter ∈ getters, getter ∈ m.prefetchItems ++ m.mightGet)
          (set : Finset Nat) (above : (if found then insert m.id before else before) ⊆ set) :
          ∃ depth after, forEach ep.find (check consumers start already ep depth) getters set = .ok after ∧
            (if found then insert m.id before else before) ⊆ after := by
        refine forEach_ends check_mono (fun getter listed => ?_) above
        obtain ⟨p,looked,depends⟩ := resolved_find resolved member (own getter listed)
        refine ⟨p,looked,fun set above => ?_⟩
        obtain ⟨depth,after,ran,grows⟩ := down p depends set above
        exact ⟨depth,after,ran,above.trans grows⟩
      obtain ⟨more,middle,first,above⟩ := loop m.mightGet (fun g => List.mem_append_right _) _
        (Finset.Subset.refl _)
      obtain ⟨most,after,second,last⟩ := loop m.prefetchItems (fun g => List.mem_append_left _) middle above
      refine ⟨max depth (max more most) + 1,after,check_new leaf seen (isToCheck_deeper (le_max_left _ _) tested)
        (forEach_check_mono ((le_max_left _ _).trans (le_max_right _ _)) first)
        (forEach_check_mono ((le_max_right _ _).trans (le_max_right _ _)) second),?_⟩
      cases found with
      | true => exact (Finset.subset_insert m.id before).trans last
      | false => exact last

end Downward

end ToyMtFramework.FinishSetup
