import ToyMtFramework.OpenMPAnnounceEvents
import ToyMtFramework.OpenMPGetProducers

/-! What a step of the modules does to the tasks that wait in their lists, to those who have yet to release
them, and to the calls of `doWorkAsync` and of `announce` that are under way. -/
namespace ToyMtFramework.OpenMP
open Activities

/-- A task that waits for a module is one of the same event. -/
def Bound {L D E : Type} (f : Frame L D E) : Prop :=
  match f.stage with
  | .doWorkAsync g (.runModule w) | .node g (.runModule w) => g.stream = w.stream
  | .doWorkAsync g (.doneTask _ target) | .node g (.doneTask _ target) => target = g
  | .prefetch w gs => ∀ g ∈ gs, g.stream = w.stream
  | .get w target _ _ | .regionEnd _ w target _ _ => target.stream = w.stream
  | _ => True

section Accounts
variable {L D E : Type} [DecidableEq L] [DecidableEq D] {job : Job L D E} {sh : Shared L D E} {f g : Frame L D E}
  {r : Reaction (Shared L D E) (Frame L D E)} {rest : Multiset (Frame L D E)}

theorem bound_react (bound : Bound f) (reacts : Reacts job sh f r) (member : g ∈ r.frames) : Bound g := by
  cases reacts with
  | add region w t waiting =>
    rcases List.mem_pair.mp (Multiset.mem_coe.mp member) with rfl | rfl
    · trivial
    · cases t <;> exact bound
  | startWork region w started =>
    obtain rfl := List.mem_singleton.mp (Multiset.mem_coe.mp member)
    exact fun v listed => getters_stream listed
  | prefetch region w v gs =>
    rcases List.mem_pair.mp (Multiset.mem_coe.mp member) with rfl | rfl
    · exact bound v List.mem_cons_self
    · exact fun u listed => bound u (List.mem_cons_of_mem v listed)
  | decrementLast region t last =>
    have spawned : g ∈ (t.spawned region : List (Frame L D E)) := by simpa using member
    cases t with
    | runModule w =>
      obtain rfl := List.mem_singleton.mp spawned
      trivial
    | _ => cases spawned
  | get region w target label product next known =>
    obtain rfl := List.mem_singleton.mp (Multiset.mem_coe.mp member)
    rw [known]
    rfl
  | parallel region w target count next missing =>
    rcases List.mem_pair.mp (Multiset.mem_coe.mp member) with rfl | rfl
    · rfl
    · exact bound
  | startRefused | finishedTask | decrement | doneWaiting => simp at member
  | _ =>
    simp only [Reaction.frames_mk,List.append_nil,List.nil_append,Multiset.mem_coe,
      List.mem_cons,List.not_mem_nil,or_false] at member
    rcases member with rfl | rfl <;> trivial

/-- Who holds the tasks, what the modules are at and have announced, and which event all of it belongs to. -/
structure Accounted (sh : Shared L D E) (bag : Multiset (Frame L D E)) : Prop where
  owners : ∀ t, sh.refCount t = weigh (owns t) bag
  work : ∀ w, weigh (works w) bag + min 1 (sh.refCount (.runModule w)) + (sh.outcomes w).length =
    (sh.workStarted w).toNat
  told : ∀ w, sh.outcomes w ≠ [] → (sh.list w).waiting = false
  bound : ∀ f ∈ bag, Bound f

theorem Accounted.react (accounted : Accounted sh (f ::ₘ rest)) (reacts : Reacts job sh f r) :
    Accounted r.shared (r.frames + rest) where
  owners := owners_react accounted.owners reacts
  work := work_react accounted.owners accounted.work reacts
  told := told_react accounted.told reacts
  bound := by
    intro g member
    rcases Multiset.mem_add.mp member with new | old
    · exact bound_react (accounted.bound f (Multiset.mem_cons_self f rest)) reacts new
    · exact accounted.bound g (Multiset.mem_cons_of_mem old)

theorem Accounted.request {bag : Multiset (Frame L D E)} (accounted : Accounted sh bag) (w : ModuleWrapper L D)
    (region : Option Nat) : Accounted (sh.hold .outside) (⟨region,.doWorkAsync w .outside⟩ ::ₘ bag) where
  owners t := by
    simp only [Shared.hold,weigh_cons,owns]
    rw [accounted.owners t,Nat.add_comm]
  work v := by simpa [Shared.hold,works] using accounted.work v
  told := accounted.told
  bound f member := by
    rcases Multiset.mem_cons.mp member with rfl | old
    · trivial
    · exact accounted.bound f old

end Accounts

namespace Announce
open Transition

variable {L D E : Type} [DecidableEq L] [DecidableEq D] {job : Job L D E} {sh : ListShared L D E} {q : Option Nat}
  {f g : ListFrame L D E} {r : Reaction (ListShared L D E) (ListFrame L D E)}
  {w : ModuleWrapper L D} {t : TaskId L D}

/-- The call of `doWorkAsync` has yet to put its task in the list, or to release it. -/
def ListFrame.asks (f : ListFrame L D E) : Option (ModuleWrapper L D × TaskId L D) :=
  match f.stage with
  | .act (.doWorkAsync w t) | .add w t => some (w,t)
  | _ => none

omit [DecidableEq L] [DecidableEq D] in
theorem asks_stage (asks : f.asks = some (w,t)) : f.stage = .act (.doWorkAsync w t) ∨ f.stage = .add w t := by
  obtain ⟨region,stage⟩ := f
  cases stage with
  | act stage =>
    cases stage with
    | doWorkAsync v u =>
      cases asks
      exact Or.inl rfl
    | _ => cases asks
  | add v u =>
    cases asks
    exact Or.inr rfl
  | _ => cases asks

/-- How a call of `doWorkAsync` comes about. -/
inductive Asked (sh : ListShared L D E) (f : ListFrame L D E) (frames : Multiset (ListFrame L D E))
    (w : ModuleWrapper L D) : TaskId L D → Option Nat → Prop
  | goes (t : TaskId L D) (asks : f.asks = some (w,t)) : Asked sh f frames w t f.region
  | prefetches (v : ModuleWrapper L D) (gs : List (ModuleWrapper L D))
      (prefetches : f.stage = .act (.prefetch v (w :: gs))) : Asked sh f frames w (.runModule v) f.region
  | gets (v : ModuleWrapper L D) (found : Nat) (next : Except E Int → Program L D E)
      (gets : f.stage = .act (.get v w found next))
      (opens : ∃ e ∈ frames, e.awaits = some (sh.base.regions,w)) :
      Asked sh f frames w (.doneTask sh.base.regions w) (some sh.base.regions)

theorem plain_asks {base : Shared L D E} {region : Option Nat} {stage : Stage L D E} {h : Frame L D E}
    {reaction : Reaction (Shared L D E) (Frame L D E)} (plain : Plain base stage)
    (reacts : Reacts job base ⟨region,stage⟩ reaction) (member : h ∈ reaction.frames)
    (asks : (lift h).asks = some (w,t)) :
    (∃ v gs, stage = .prefetch v (w :: gs) ∧ t = .runModule v) ∧ h.region = region := by
  cases reacts with
  | add | parallel | startWork | node | queued | doneWaiting => simp_all [Plain]
  | prefetch _ v u gs =>
    rcases List.mem_pair.mp (Multiset.mem_coe.mp member) with rfl | rfl <;> cases asks
    exact ⟨⟨v,gs,rfl,rfl⟩,rfl⟩
  | addLate =>
    rcases List.mem_pair.mp (Multiset.mem_coe.mp member) with rfl | rfl <;> cases asks
  | decrementLast _ u last =>
    have spawned : h ∈ (u.spawned region : List (Frame L D E)) := by simpa using member
    cases u with
    | runModule v =>
      obtain rfl := List.mem_singleton.mp spawned
      cases asks
    | _ => cases spawned
  | startRefused | finishedTask | decrement => simp at member
  | _ =>
    obtain rfl := List.mem_singleton.mp (Multiset.mem_coe.mp member)
    cases asks

theorem asks_moves (moves : Moves job sh q f r) (member : g ∈ r.frames) (asks : g.asks = some (w,t)) :
    Asked sh f r.frames w t g.region := by
  cases moves with
  | plain region stage reaction plain reacts =>
    obtain ⟨h,inside,rfl⟩ := mem_lifted member
    obtain ⟨⟨v,gs,same,rfl⟩,unmoved⟩ := plain_asks plain reacts inside asks
    subst same
    have unmoved : (lift h).region = region := unmoved
    rw [unmoved]
    exact .prefetches v gs rfl
  | doWorkAsync region v u waiting =>
    obtain rfl := List.mem_singleton.mp (Multiset.mem_coe.mp member)
    cases asks
    exact .goes t rfl
  | parallel region v target found next missing =>
    rcases List.mem_pair.mp (Multiset.mem_coe.mp member) with rfl | rfl <;> cases asks
    exact .gets v found next rfl ⟨_,List.mem_cons_of_mem _ (List.mem_singleton_self _),rfl⟩
  | queued | walk =>
    rcases List.mem_pair.mp (Multiset.mem_coe.mp member) with rfl | rfl <;> cases asks
  | walked => simp at member
  | _ =>
    obtain rfl := List.mem_singleton.mp (Multiset.mem_coe.mp member)
    cases asks

theorem plain_calls {base : Shared L D E} {region : Option Nat} {stage : Stage L D E} {h : Frame L D E}
    {reaction : Reaction (Shared L D E) (Frame L D E)} (plain : Plain base stage)
    (reacts : Reacts job base ⟨region,stage⟩ reaction) (member : h ∈ reaction.frames) (calls : (lift h).Calls w) :
    ∃ t, stage = .doWorkAsync w t := by
  cases reacts with
  | add | parallel | startWork | node | queued | doneWaiting => simp_all [Plain]
  | addLate _ v t told =>
    rcases List.mem_pair.mp (Multiset.mem_coe.mp member) with rfl | rfl
    · exact calls.elim
    · obtain rfl : v = w := calls
      exact ⟨t,rfl⟩
  | prefetch =>
    rcases List.mem_pair.mp (Multiset.mem_coe.mp member) with rfl | rfl <;> exact calls.elim
  | decrementLast _ u last =>
    have spawned : h ∈ (u.spawned region : List (Frame L D E)) := by simpa using member
    cases u with
    | runModule v =>
      obtain rfl := List.mem_singleton.mp spawned
      exact calls.elim
    | _ => cases spawned
  | startRefused | finishedTask | decrement => simp at member
  | _ =>
    obtain rfl := List.mem_singleton.mp (Multiset.mem_coe.mp member)
    exact calls.elim

/-- A call that is about to exchange the flag has put its task in the list, or found the module finished. -/
theorem called_moves (moves : Moves job sh q f r) (member : g ∈ r.frames) (calls : g.Calls w) : f.Calls w ∨
    (∃ t, f.stage = .add w t) ∨ (∃ t, f.asks = some (w,t)) ∧ (sh.base.list w).waiting = false := by
  cases moves with
  | plain region stage reaction plain reacts =>
    obtain ⟨h,inside,rfl⟩ := mem_lifted member
    obtain ⟨t,rfl⟩ := plain_calls plain reacts inside calls
    exact Or.inr (Or.inr ⟨⟨t,rfl⟩,plain⟩)
  | addFirst region v t | add region v t =>
    obtain rfl := List.mem_singleton.mp (Multiset.mem_coe.mp member)
    obtain rfl : v = w := calls
    exact Or.inr (Or.inl ⟨t,rfl⟩)
  | recheckWaiting | recheck | walkedOn =>
    obtain rfl := List.mem_singleton.mp (Multiset.mem_coe.mp member)
    exact Or.inl calls
  | announce region v after | look region v nodes after =>
    obtain rfl := List.mem_singleton.mp (Multiset.mem_coe.mp member)
    cases after with
    | true => exact Or.inl calls
    | false => exact calls.elim
  | walk region v u nodes after =>
    rcases List.mem_pair.mp (Multiset.mem_coe.mp member) with rfl | rfl
    · exact calls.elim
    · cases after with
      | true => exact Or.inl calls
      | false => exact calls.elim
  | queued | parallel =>
    rcases List.mem_pair.mp (Multiset.mem_coe.mp member) with rfl | rfl <;> exact calls.elim
  | walked => simp at member
  | _ =>
    obtain rfl := List.mem_singleton.mp (Multiset.mem_coe.mp member)
    exact calls.elim

theorem pending_moves (moves : Moves job sh q f r) (member : g ∈ r.frames) (pending : g.pending = some w) :
    f.pending = some w ∨ .runModule w ∈ f.tasks := by
  cases moves with
  | plain region stage reaction plain reacts =>
    obtain ⟨h,inside,rfl⟩ := mem_lifted member
    cases reacts with
    | add | parallel | startWork | node | queued | doneWaiting => simp_all [Plain]
    | push _ v =>
      obtain rfl := List.mem_singleton.mp (Multiset.mem_coe.mp inside)
      cases pending
      exact Or.inr (List.mem_singleton_self _)
    | decrementLast _ u last =>
      have spawned : h ∈ (u.spawned region : List (Frame L D E)) := by simpa using inside
      cases u with
      | runModule v =>
        obtain rfl := List.mem_singleton.mp spawned
        cases pending
      | _ => cases spawned
    | addLate | prefetch =>
      rcases List.mem_pair.mp (Multiset.mem_coe.mp inside) with rfl | rfl <;> cases pending
    | startRefused | finishedTask | decrement => simp at inside
    | _ =>
      obtain rfl := List.mem_singleton.mp (Multiset.mem_coe.mp inside)
      cases pending
  | doneWaiting region v e =>
    obtain rfl := List.mem_singleton.mp (Multiset.mem_coe.mp member)
    cases pending
    exact Or.inr (List.mem_singleton_self _)
  | announce region v after | look region v nodes after =>
    obtain rfl := List.mem_singleton.mp (Multiset.mem_coe.mp member)
    cases after with
    | true => cases pending
    | false => exact Or.inl pending
  | walk region v u nodes after =>
    rcases List.mem_pair.mp (Multiset.mem_coe.mp member) with rfl | rfl
    · cases pending
    · cases after with
      | true => cases pending
      | false => exact Or.inl pending
  | queued | parallel =>
    rcases List.mem_pair.mp (Multiset.mem_coe.mp member) with rfl | rfl <;> cases pending
  | walked => simp at member
  | _ =>
    obtain rfl := List.mem_singleton.mp (Multiset.mem_coe.mp member)
    cases pending

theorem accounted_moves {rest : Multiset (ListFrame L D E)}
    (accounted : Accounted sh.base (sh.view (f ::ₘ rest)))
    (told : ∀ w, f.Announces w → (sh.base.list w).waiting = false) (moves : Moves job sh q f r) :
    Accounted r.shared.base (r.shared.view (r.frames + rest)) := by
  have seen : Seen job sh.base f (sh.view (f ::ₘ rest)) r.shared.base (r.shared.view (r.frames + rest)) :=
    moves_view moves fun w nodes after walks => told w (by simp [ListFrame.Announces,walks])
  generalize sh.view (f ::ₘ rest) = before at accounted seen
  generalize r.shared.base = base at seen ⊢
  generalize r.shared.view (r.frames + rest) = after at seen ⊢
  cases seen with
  | still => exact accounted
  | acts h reaction others view reacts own =>
    rw [view] at accounted
    exact accounted.react reacts

end Announce
end ToyMtFramework.OpenMP
