import ToyMtFramework.OpenMPGetInside

/-! What `edm::Event::get` of the OpenMP framework returns. Its parallel region knows nothing of the tasks
that other threads own or that a queue holds. When the work for it has stayed inside the region, the value
is the one that the producer has put in this event as the last thing it had to do. -/
namespace ToyMtFramework.OpenMP.Announce
open Activities Transition

variable {L D E : Type} [DecidableEq L] [DecidableEq D]

/-- The producer has nothing left to do in this event but to return. -/
def Rests (job : Job L D E) (s : State L D E) (target : ModuleWrapper L D) : Prop :=
  ∀ f ∈ s.bag, ∀ g ∈ f.acting, ∀ v ∈ g.busy, ¬job.SameProducer v target

def Performed (job : Job L D E) (s : State L D E) (target : ModuleWrapper L D) : Prop :=
  (∃ run ∈ s.shared.base.ran, job.SameProducer run.wrapper target) ∨
    ∃ f ∈ s.bag, ∃ g ∈ f.acting, ∃ v, g.stage = .body v .finish ∧ job.SameProducer v target

/-- The value is the one put in this event by a producer that has finished its work without failing; an
exception is one that the wrapper has announced. -/
def Right (job : Job L D E) (s : State L D E) (target : ModuleWrapper L D) : Except E Int → Prop
  | .ok value => s.shared.base.put target = some value ∧ Rests job s target ∧ Performed job s target ∧
      Unfailed job s.shared.base target
  | .error e => Rests job s target ∧ some e ∈ s.shared.base.outcomes target

variable {job : Job L D E} {s t : State L D E} {f : ListFrame L D E} {rest : Multiset (ListFrame L D E)}

omit [DecidableEq L] [DecidableEq D] in
theorem acting_view {sh : ListShared L D E} {bag : Multiset (ListFrame L D E)} (member : f ∈ bag) {g : Frame L D E}
    (acting : f.acting = some g) : g ∈ sh.view bag := by
  refine mem_view.mpr (Or.inl ⟨f,member,?_⟩)
  obtain ⟨region,stage⟩ := f
  cases stage with
  | act stage =>
    cases acting
    exact List.mem_singleton_self _
  | _ => cases acting

omit [DecidableEq L] [DecidableEq D] in
theorem view_acting {sh : ListShared L D E} {bag : Multiset (ListFrame L D E)} {w : ModuleWrapper L D}
    {program : Program L D E} {region : Option Nat} (seen : ⟨region,.body w program⟩ ∈ sh.view bag) :
    ∃ f ∈ bag, f.acting = some ⟨region,.body w program⟩ := by
  rcases mem_view.mp seen with ⟨f,member,view⟩ | ⟨x,_,same⟩
  · refine ⟨f,member,?_⟩
    obtain ⟨region,stage⟩ := f
    cases stage with
    | act stage =>
      have same := List.mem_singleton.mp view
      cases same
      rfl
    | add v u => rcases List.mem_pair.mp view with same | same <;> cases same
    | recheck v =>
      have same := List.mem_singleton.mp view
      cases same
    | announce v after =>
      cases after with
      | true =>
        have same := List.mem_singleton.mp view
        cases same
      | false => cases view
    | walk v nodes after | look v nodes after =>
      rcases mem_nodes_view view with ⟨u,_,same⟩ | call
      · cases same
      · cases call
  · cases same

/-- A caller that is not the producer goes on. -/
theorem rests_returned {target w : ModuleWrapper L D} {program : Program L D E} {q : Option Nat}
    (rests : ∀ g ∈ s.shared.view s.bag, ∀ v ∈ g.busy, ¬job.SameProducer v target)
    (before : s.bag = f ::ₘ rest) (after : t.bag = ↑[(⟨q,.act (.body w program)⟩ : ListFrame L D E)] + rest)
    (calling : ∃ g, f.acting = some g ∧ g.busy = some w) : Rests job t target := by
  intro h member g acting v busy
  rw [after] at member
  rcases Multiset.mem_add.mp member with new | other
  · obtain rfl := List.mem_singleton.mp (Multiset.mem_coe.mp new)
    cases acting
    have executing := busy_executing busy
    cases executing
    obtain ⟨g,acting,busy⟩ := calling
    exact rests g (acting_view (before ▸ Multiset.mem_cons_self f rest) acting) w busy
  · exact rests g (acting_view (before ▸ Multiset.mem_cons_of_mem other) acting) v busy

/-- What a body has put that has nothing left to do but to return. -/
theorem performed_returned {target : ModuleWrapper L D} (kept : Kept s.shared.base (s.shared.view s.bag))
    (closing : Closing s.shared.base (s.shared.view s.bag) target) (before : s.bag = f ::ₘ rest)
    {frames : Multiset (ListFrame L D E)} (after : t.bag = frames + rest)
    (ran : t.shared.base.ran = s.shared.base.ran)
    (calling : ∀ q v program, f.acting ≠ some ⟨q,.body v program⟩) : Performed job t target := by
  rcases kept.closing_performed closing with ⟨run,member,rfl⟩ | ⟨⟨q,stage⟩,seen,body⟩
  · rw [← ran] at member
    exact Or.inl ⟨run,member,rfl,rfl⟩
  · have same : stage = .body target .finish := body
    rw [same] at seen
    obtain ⟨h,member,acting⟩ := view_acting seen
    rw [before] at member
    have other : h ∈ rest := by
      rcases Multiset.mem_cons.mp member with rfl | other
      · exact absurd acting (calling _ _ _)
      · exact other
    exact Or.inr ⟨h,after ▸ Multiset.mem_add.mpr (Or.inr other),_,acting,target,rfl,rfl,rfl⟩

/-- What is needed, when a rank bounds how deep the getters go. -/
def reach (job : Job L D E) : Nat → ModuleWrapper L D → List (ModuleWrapper L D)
  | 0, w => [w]
  | n + 1, w => w :: (job.getters w).flatMap (reach job n)

theorem reach_needs {n : Nat} {target w : ModuleWrapper L D} (reached : w ∈ reach job n target) :
    Needs job target w := by
  induction n generalizing target with
  | zero =>
    rw [List.mem_singleton.mp reached]
    exact .refl
  | succ n ih =>
    rcases List.mem_cons.mp reached with rfl | later
    · exact .refl
    · obtain ⟨g,gets,reached⟩ := List.mem_flatMap.mp later
      exact .head gets (ih reached)

theorem needs_iff {rank : ModuleWrapper L D → Nat} (falls : ∀ w, ∀ g ∈ job.getters w, rank g < rank w)
    {target w : ModuleWrapper L D} : Needs job target w ↔ w ∈ reach job (rank target) target := by
  have deep (n : Nat) : rank target ≤ n → Needs job target w → w ∈ reach job n target := by
    intro bound needs
    induction needs using Relation.ReflTransGen.head_induction_on generalizing n with
    | refl => cases n <;> exact List.mem_cons_self
    | head gets _ ih =>
      have below := falls _ _ gets
      cases n with
      | zero => omega
      | succ n => exact List.mem_cons_of_mem _ (List.mem_flatMap.mpr ⟨_,gets,ih n (by omega)⟩)
  exact ⟨deep _ (Nat.le_refl _),reach_needs⟩

def decideCovered {rank : ModuleWrapper L D → Nat} (falls : ∀ w, ∀ g ∈ job.getters w, rank g < rank w)
    (sh : ListShared L D E) (bag : Multiset (ListFrame L D E)) (f : ListFrame L D E) (q : Option Nat) :
    Decidable (Covered job sh bag f q) :=
  have needs (target w : ModuleWrapper L D) : Decidable (Needs job target w) :=
    decidable_of_iff _ (needs_iff falls).symm
  have inside (w : ModuleWrapper L D) (r : Option Nat) : Decidable (Inside job sh bag w r) :=
    inferInstanceAs (Decidable (∀ f ∈ bag, ∀ x ∈ f.awaits, Needs job x.2 w → sh.within r (some x.1) = true))
  have quiet (target : ModuleWrapper L D) : Decidable (∀ w, Needs job target w →
      sh.base.workStarted w = true → (sh.base.list w).waiting = false) :=
    decidable_of_iff (∀ w ∈ reach job (rank target) target,
      sh.base.workStarted w = true → (sh.base.list w).waiting = false) (by simp only [needs_iff falls])
  by
    unfold Covered
    repeat' split
    all_goals infer_instance

/-- Two filters want the product of a producer that has to get one itself. The calls of the bodies come from
modules that may run at any time and from those that share a queue with the second producer. -/
def chained : Job Nat Unit Unit where
  filters := [⟨0,.threadSafeBetweenInstances,[],[],fun _ => .get 1 () fun _ => .finish⟩,
    ⟨3,.threadUnsafe,[],[],fun _ => .get 1 () fun _ => .finish⟩]
  producers := [⟨1,.threadSafeBetweenModules,[(2,())],[()],fun _ => .put () 7 .finish⟩,
    ⟨2,.threadUnsafe,[],[()],fun _ => .put () 5 .finish⟩]

def depth (w : ModuleWrapper Nat Unit) : Nat :=
  if w.key = .producer 1 () then 1 else 0

theorem chained_falls : ∀ w, ∀ g ∈ chained.getters w, depth g < depth w := by
  rintro ⟨stream,label | ⟨label,⟨⟩⟩⟩ g gets
  · have first : label ≠ 0 := by
      rintro rfl
      exact absurd gets List.not_mem_nil
    have second : label ≠ 3 := by
      rintro rfl
      exact absurd gets List.not_mem_nil
    have unknown : chained.module (.filter label) = none := by
      simp [Job.module,chained,Ne.symm first,Ne.symm second]
    rw [Job.getters,unknown] at gets
    cases gets
  · by_cases first : label = 1
    · subst first
      rw [List.mem_singleton.mp gets]
      simp [depth]
    · have second : label ≠ 2 := by
        rintro rfl
        exact absurd gets List.not_mem_nil
      have unknown : chained.producerOf (.producer label ()) = none := by
        simp [Job.producerOf,chained,Ne.symm first,Ne.symm second]
      rw [Job.getters,Job.module,unknown] at gets
      cases gets

instance (s : State Nat Unit Unit) (a : Action Nat Unit) : Decidable (Allowed chained s a) :=
  match a with
  | .act thread choice =>
    have (f : ListFrame Nat Unit Unit) : Decidable (Covered chained s.shared s.bag f choice.region) :=
      decideCovered chained_falls ..
    have (f : ListFrame Nat Unit Unit) : Decidable (Proper chained s.shared.base f) :=
      inferInstanceAs (Decidable (∀ g ∈ f.acting, Produces s.shared.base g ∧ PutsOwn chained g ∧ g.putsLast = true))
    inferInstanceAs (Decidable (∀ f ∈ s.top thread,
      Proper chained s.shared.base f ∧ Covered chained s.shared s.bag f choice.region))
  | .request _ _ => .isTrue trivial
  | .reset stream => inferInstanceAs (Decidable ((∀ f ∈ s.bag, f.concerns stream = false) ∧
      ∀ x ∈ s.shared.heads, x.1.stream ≠ stream ∧ x.2.concerns stream = false))

def turns (region : Option Nat) (threads : List Nat) : List (Action Nat Unit) :=
  threads.map fun thread => .act thread ⟨0,region⟩

/-- The first filter waits while the producer has put its product and the second filter asks for it. -/
def asking : List (Action Nat Unit) :=
  .request ⟨0,.filter 0⟩ none :: turns none [0,0,0,0,0,0,1,1,1,1,1,1,1,1,1,1,1,1,1,1,1,2] ++
    turns (some 0) [3,3,3,3,3,3,3,3,3,3,3,3,1,1,4,5,5,5] ++
      .request ⟨0,.filter 3⟩ none :: turns none [6,6,6,6,6,6,7,8,8,8]

def asked : List (Action Nat Unit) :=
  asking ++ turns none [8,5,5,5,5,5,5,5,5,5]

/-- Two filters want the product of one producer: the first asks for it in its body, the other before. -/
def racing : Job Nat Unit Unit where
  filters := [⟨0,.threadSafeBetweenInstances,[],[],fun _ => .get 2 () fun _ => .finish⟩,
    ⟨1,.threadSafeBetweenInstances,[(2,())],[],fun _ => .finish⟩]
  producers := [⟨2,.threadSafeBetweenInstances,[],[()],fun _ => .put () 7 .finish⟩]

/-- The second filter starts the producer, whose task waits for a thread while the first one asks. -/
def raced : List (Action Nat Unit) :=
  .request ⟨0,.filter 1⟩ none :: turns none (List.replicate 11 0) ++
    .request ⟨0,.filter 0⟩ none :: turns none (List.replicate 6 2 ++ List.replicate 7 3)

end ToyMtFramework.OpenMP.Announce
