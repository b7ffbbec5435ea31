import ToyMtFramework.OpenMPAnnounceTasks
import ToyMtFramework.OpenMPGetProducers
import Mathlib.Logic.Relation

/-! The nested parallel regions, and when the work for a `get` stays inside its region. The end of a region
waits for what was generated in it, so the modules that the producer needs have to be started, taken out of
their queues and announced by threads of the region. -/
namespace ToyMtFramework.OpenMP.Announce
open Activities Transition

variable {L D E : Type}

def ListFrame.acting (f : ListFrame L D E) : Option (Frame L D E) :=
  match f.stage with
  | .act stage => some ⟨f.region,stage⟩
  | _ => none

def ListFrame.concerns (stream : Nat) (f : ListFrame L D E) : Bool :=
  match f.stage with
  | .act stage => Frame.concerns stream ⟨f.region,stage⟩
  | .add w t => w.stream = stream || t.concerns stream
  | .recheck w | .announce w _ => w.stream = stream
  | .walk w nodes _ | .look w nodes _ => w.stream = stream || nodes.any (TaskId.concerns stream)

section Machine
variable [DecidableEq L] [DecidableEq D] (job : Job L D E)

/-- The module of `w` is that of `target`, or one that it gets a product of, and so on. -/
def Needs (target w : ModuleWrapper L D) : Prop :=
  Relation.ReflTransGen (fun v g => g ∈ job.getters v) target w

def Inside (sh : ListShared L D E) (bag : Multiset (ListFrame L D E)) (w : ModuleWrapper L D)
    (r : Option Nat) : Prop :=
  ∀ f ∈ bag, ∀ x ∈ f.awaits, Needs job x.2 w → sh.within r (some x.1) = true

/-- When the region of a `get` opens, what its producer needs is not at work elsewhere. Until the region ends
it is only started, taken out of its queue and, once it is over, called and announced inside the region; and
when it ends nothing that is needed is left in a queue. -/
def Covered (sh : ListShared L D E) (bag : Multiset (ListFrame L D E)) (f : ListFrame L D E)
    (q : Option Nat) : Prop :=
  match f.stage with
  | .act (.get _ target _ _) =>
    if (sh.base.cache target).wasCached then Alone job sh.base target
    else ∀ w, Needs job target w → sh.base.workStarted w = true → (sh.base.list w).waiting = false
  | .act (.regionEnd _ _ target _ _) =>
    Alone job sh.base target ∧ ∀ g ∈ bag, ∀ w ∈ g.queued, ¬Needs job target w
  | .act (.startWork w) => sh.base.workStarted w = false → Inside job sh bag w f.region
  | .act (.queued w _) => Inside job sh bag w q
  | .add w _ | .announce w true => (sh.base.list w).waiting = false → Inside job sh bag w f.region
  | _ => True

def Proper (sh : Shared L D E) (f : ListFrame L D E) : Prop :=
  ∀ g ∈ f.acting, Produces sh g ∧ PutsOwn job g ∧ g.putsLast = true

def Allowed (s : State L D E) : Action L D → Prop
  | .act thread choice =>
    ∀ f ∈ s.top thread, Proper job s.shared.base f ∧ Covered job s.shared s.bag f choice.region
  | .request _ _ => True
  | .reset stream => (∀ f ∈ s.bag, f.concerns stream = false) ∧
    ∀ x ∈ s.shared.heads, x.1.stream ≠ stream ∧ x.2.concerns stream = false

end Machine

def Opened (bag : Multiset (ListFrame L D E)) (k : Nat) : Prop :=
  ∃ e ∈ bag, ∃ target, e.awaits = some (k,target)

/-- A region in which there is a frame is open, in the regions around it, which are older. -/
structure Nested (sh : ListShared L D E) (bag : Multiset (ListFrame L D E)) : Prop where
  opened : ∀ f ∈ bag, ∀ j, f.region = some j → Opened bag j
  order : ∀ e ∈ bag, ∀ x, e.awaits = some x → x.1 < sh.base.regions ∧ (∀ i, e.region = some i → i < x.1) ∧
    sh.nest x.1 = x.1 :: sh.enclosing e.region

section Nested
variable {sh : ListShared L D E} {f : ListFrame L D E} {rest bag : Multiset (ListFrame L D E)}

theorem Nested.before (nested : Nested sh bag) {j : Nat} (opened : Opened bag j) : j < sh.base.regions := by
  obtain ⟨e,awaiting,target,awaits⟩ := opened
  exact (nested.order e awaiting _ awaits).1

/-- Nothing is in a region, nor in one inside it, when no frame is in the region itself. -/
theorem Nested.empty (nested : Nested sh bag) {k : Nat} (idle : ∀ f ∈ bag, f.region ≠ some k) :
    ∀ f ∈ bag, sh.within f.region (some k) = false := by
  have below (n : Nat) : ∀ f ∈ bag, f.region = some n → k ∉ sh.nest n := by
    induction n using Nat.strong_induction_on with
    | _ n ih =>
      intro f member inside within
      obtain ⟨e,awaiting,target,awaits⟩ := nested.opened f member n inside
      obtain ⟨_,older,nest⟩ := nested.order e awaiting _ awaits
      rw [nest] at within
      rcases List.mem_cons.mp within with rfl | outer
      · exact idle f member inside
      · cases region : e.region with
        | none =>
          rw [region] at outer
          cases outer
        | some i =>
          rw [region] at outer
          exact ih i (older i region) e awaiting region outer
  intro f member
  cases region : f.region with
  | none => rfl
  | some n => simpa [ListShared.within] using below n f member region

end Nested

section Moves
variable [DecidableEq L] [DecidableEq D] {job : Job L D E} {sh : ListShared L D E} {q : Option Nat}
  {f g : ListFrame L D E} {r : Reaction (ListShared L D E) (ListFrame L D E)} {rest : Multiset (ListFrame L D E)}

theorem plain_region {base : Shared L D E} {region : Option Nat} {stage : Stage L D E} {h : Frame L D E}
    {reaction : Reaction (Shared L D E) (Frame L D E)} (plain : Plain base stage)
    (reacts : Reacts job base ⟨region,stage⟩ reaction) (member : h ∈ reaction.frames) :
    h.region = region ∨ h.region = none := by
  cases reacts with
  | add | parallel | startWork | node | queued | doneWaiting => simp_all [Plain]
  | decrementLast _ t last =>
    have spawned : h ∈ (t.spawned region : List (Frame L D E)) := by simpa using member
    cases t with
    | runModule w =>
      obtain rfl := List.mem_singleton.mp spawned
      exact Or.inl rfl
    | _ => cases spawned
  | startRefused | finishedTask | decrement => simp at member
  | _ =>
    simp only [Reaction.frames_mk,List.append_nil,List.nil_append,Multiset.mem_coe,List.mem_cons,
      List.not_mem_nil,or_false] at member
    rcases member with rfl | rfl <;> simp

/-- A frame works for the region of the one that made it; a task of a queue works for the region of the
thread that takes it out, and a call of `get` for a new one. -/
theorem region_moves (moves : Moves job sh q f r) (member : g ∈ r.frames) :
    g.region = f.region ∨ g.region = none ∨ (g.region = q ∧ f.awaits = none) ∨
      (g.region = some sh.base.regions ∧ Opened r.frames sh.base.regions) := by
  cases moves with
  | plain region stage reaction plain reacts =>
    obtain ⟨h,inside,rfl⟩ := mem_lifted member
    rcases plain_region plain reacts inside with same | none
    · exact Or.inl same
    · exact Or.inr (Or.inl none)
  | parallel region w target found next missing =>
    rcases List.mem_pair.mp (Multiset.mem_coe.mp member) with rfl | rfl
    · exact Or.inr (Or.inr (Or.inr ⟨rfl,_,List.mem_cons_of_mem _ (List.mem_singleton_self _),target,rfl⟩))
    · exact Or.inl rfl
  | queued region w e queue =>
    rcases List.mem_pair.mp (Multiset.mem_coe.mp member) with rfl | rfl <;>
      exact Or.inr (Or.inr (Or.inl ⟨rfl,rfl⟩))
  | walked => simp at member
  | walk region w t nodes after =>
    rcases List.mem_pair.mp (Multiset.mem_coe.mp member) with rfl | rfl <;> exact Or.inl rfl
  | _ =>
    obtain rfl := List.mem_singleton.mp (Multiset.mem_coe.mp member)
    exact Or.inl rfl

theorem regions_moves (moves : Moves job sh q f r) : sh.base.regions ≤ r.shared.base.regions := by
  cases moves with
  | plain region stage reaction plain reacts => exact Nat.le_of_eq (plain_still plain reacts).1.symm
  | parallel => exact Nat.le_succ _
  | _ => exact Nat.le_refl _

/-- A region that opens is a new one, in that of the frame that opens it. -/
theorem awaits_moves (moves : Moves job sh q f r) (member : g ∈ r.frames) {x : Nat × ModuleWrapper L D}
    (awaits : g.awaits = some x) : x.1 = sh.base.regions ∧ x.1 < r.shared.base.regions ∧
      g.region = f.region ∧ r.shared.nest x.1 = x.1 :: sh.enclosing f.region ∧ ∃ w found next, f.stage = .act (.get w x.2 found next) ∧
        (sh.base.cache x.2).wasCached = false := by
  cases moves with
  | plain region stage reaction plain reacts =>
    exfalso
    obtain ⟨h,inside,rfl⟩ := mem_lifted member
    cases reacts with
    | add | parallel | startWork | node | queued | doneWaiting => simp_all [Plain]
    | decrementLast _ t last =>
      have spawned : h ∈ (t.spawned region : List (Frame L D E)) := by simpa using inside
      cases t with
      | runModule w =>
        obtain rfl := List.mem_singleton.mp spawned
        cases awaits
      | _ => cases spawned
    | startRefused | finishedTask | decrement => simp at inside
    | _ =>
      simp only [Reaction.frames_mk,List.append_nil,List.nil_append,Multiset.mem_coe,List.mem_cons,
        List.not_mem_nil,or_false] at inside
      rcases inside with rfl | rfl <;> cases awaits
  | parallel region w target found next missing =>
    rcases List.mem_pair.mp (Multiset.mem_coe.mp member) with rfl | rfl
    · cases awaits
    · cases awaits
      exact ⟨rfl,Nat.lt_succ_self _,rfl,Function.update_self ..,w,found,next,rfl,missing⟩
  | queued | walk =>
    rcases List.mem_pair.mp (Multiset.mem_coe.mp member) with rfl | rfl <;> cases awaits
  | walked => simp at member
  | _ =>
    obtain rfl := List.mem_singleton.mp (Multiset.mem_coe.mp member)
    cases awaits

/-- What the regions are in that are open does not change. -/
theorem nest_moves (moves : Moves job sh q f r) {j : Nat} (older : j < sh.base.regions) :
    r.shared.nest j = sh.nest j := by
  cases moves with
  | parallel => exact Function.update_of_ne (Nat.ne_of_lt older) _ _
  | _ => rfl

/-- The regions around that of a frame do not change. -/
theorem Nested.enclosing_moves (nested : Nested sh (f ::ₘ rest)) (moves : Moves job sh q f r)
    (member : g ∈ f ::ₘ rest) : r.shared.enclosing g.region = sh.enclosing g.region := by
  cases region : g.region with
  | none => rfl
  | some j => exact nest_moves moves (nested.before (nested.opened g member j region))

theorem Nested.within_opened (nested : Nested sh (f ::ₘ rest)) (moves : Moves job sh q f r) {region : Option Nat}
    (opened : ∀ j, region = some j → Opened (f ::ₘ rest) j) (k : Option Nat) :
    r.shared.within region k = sh.within region k := by
  cases k with
  | none => cases region <;> rfl
  | some k =>
    cases region with
    | none => rfl
    | some j => simp only [ListShared.within,nest_moves moves (nested.before (opened j rfl))]

theorem Nested.within_moves (nested : Nested sh (f ::ₘ rest)) (moves : Moves job sh q f r)
    (member : g ∈ f ::ₘ rest) (k : Option Nat) : r.shared.within g.region k = sh.within g.region k :=
  nested.within_opened moves (nested.opened g member) k

theorem Nested.moves (nested : Nested sh (f ::ₘ rest)) (moves : Moves job sh q f r)
    (idle : ∀ x, f.awaits = some x → ∀ g ∈ f ::ₘ rest, g.region ≠ some x.1)
    (working : ∀ k, q = some k → Opened (f ::ₘ rest) k) : Nested r.shared (r.frames + rest) := by
  have stays {j : Nat} (opened : Opened (f ::ₘ rest) j) (other : ∀ target, f.awaits ≠ some (j,target)) :
      Opened (r.frames + rest) j := by
    obtain ⟨e,awaiting,target,awaits⟩ := opened
    rcases Multiset.mem_cons.mp awaiting with rfl | left
    · exact absurd awaits (other target)
    · exact ⟨e,Multiset.mem_add.mpr (Or.inr left),target,awaits⟩
  -- The region of a frame stays open as long as the frame is there.
  have inside {h : ListFrame L D E} (member : h ∈ f ::ₘ rest) {j : Nat} (region : h.region = some j) :
      Opened (r.frames + rest) j :=
    stays (nested.opened h member j region) fun target awaits => idle _ awaits h member region
  constructor
  · intro g member j region
    rcases Multiset.mem_add.mp member with new | old
    · rcases region_moves moves new with same | none | ⟨taken,free⟩ | ⟨fresh,e,awaiting,opened⟩
      · exact inside (Multiset.mem_cons_self f rest) (same ▸ region)
      · rw [none] at region
        cases region
      · refine stays (working j (taken ▸ region)) fun target awaits => ?_
        rw [free] at awaits
        cases awaits
      · rw [fresh] at region
        obtain rfl := Option.some.inj region
        exact ⟨e,Multiset.mem_add.mpr (Or.inl awaiting),opened⟩
    · exact inside (Multiset.mem_cons_of_mem old) region
  · intro e member x awaits
    rcases Multiset.mem_add.mp member with new | old
    · obtain ⟨fresh,below,region,nest,_⟩ := awaits_moves moves new awaits
      refine ⟨below,fun i outer => ?_,?_⟩
      · rw [fresh]
        exact nested.before (nested.opened f (Multiset.mem_cons_self f rest) i (region ▸ outer))
      · rw [nest,region,nested.enclosing_moves moves (Multiset.mem_cons_self f rest)]
    · obtain ⟨below,order,nest⟩ := nested.order e (Multiset.mem_cons_of_mem old) x awaits
      refine ⟨Nat.lt_of_lt_of_le below (regions_moves moves),order,?_⟩
      rw [nest_moves moves below,nest,nested.enclosing_moves moves (Multiset.mem_cons_of_mem old)]

end Moves
end ToyMtFramework.OpenMP.Announce
