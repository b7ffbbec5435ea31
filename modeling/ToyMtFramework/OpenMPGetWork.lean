import ToyMtFramework.OpenMPGetReactions
import Mathlib.Tactic.SplitIfs

/-! The work of the wrappers in the event of a stream, and the tasks that are made for it. A wrapper
works once; what it has announced is what became of its module, and a `doneTask` whose holders are gone
has been told so. -/
namespace ToyMtFramework.OpenMP
open Activities Transition

variable {L D E : Type}

def Frame.executing (f : Frame L D E) : Option (ModuleWrapper L D) :=
  match f.stage with
  | .body w _ | .get w _ _ _ | .regionEnd _ w _ _ _ => some w
  | _ => none

def TaskId.concerns (stream : Nat) : TaskId L D → Bool
  | .runModule w | .doneTask _ w => w.stream = stream
  | .outside => false

/-- The frame is part of a call, an execution or a `get` in the event of the stream. -/
def Frame.concerns (stream : Nat) (f : Frame L D E) : Bool :=
  match f.stage with
  | .doWorkAsync w t | .node w t => w.stream = stream || t.concerns stream
  | .doneWaitingTask t _ | .decrement t => t.concerns stream
  | .get w target _ _ | .regionEnd _ w target _ _ => w.stream = stream || target.stream = stream
  | .startWork w | .prefetch w _ | .execute w | .queued w _ | .runModule w _ | .body w _ | .doneWaiting w _ =>
    w.stream = stream
  | .finishedTask _ => false

section Machine
variable [DecidableEq L] [DecidableEq D] (job : Job L D E)

def Unfailed (sh : Shared L D E) (target : ModuleWrapper L D) : Prop :=
  (∀ run ∈ sh.ran, job.SameProducer run.wrapper target → run.thrown.isNone = true) ∧
    ∀ outcome ∈ sh.outcomes target, outcome.isNone = true

def Produces (sh : Shared L D E) (f : Frame L D E) : Prop :=
  match f.stage with
  | .body w .finish =>
    match w.key with
    | .filter _ => True
    | .producer _ _ => (sh.cache w).wasCached = true
  | _ => True

/-- The next event of a stream begins when nothing of the event before is going on. -/
def Careful (s : State L D E) : Action L D → Prop
  | .act thread _ => ∀ f ∈ s.top thread, Produces s.shared f
  | .request _ => True
  | .reset stream => ∀ f ∈ s.threads.flatten, f.concerns stream = false

def PutsOwn (f : Frame L D E) : Prop :=
  match f.stage with
  | .body w (.put product _ _) =>
    match w.key with
    | .filter _ => True
    | .producer label key => job.producerOf (.producer label product) = job.producerOf (.producer label key)
  | _ => True

instance (sh : Shared L D E) (f : Frame L D E) : Decidable (Produces sh f) := by
  unfold Produces
  repeat' split
  all_goals infer_instance

instance (f : Frame L D E) : Decidable (PutsOwn job f) := by
  unfold PutsOwn
  repeat' split
  all_goals infer_instance

instance (s : State L D E) (a : Action L D) : Decidable (Careful s a) :=
  match a with
  | .act thread _ => inferInstanceAs (Decidable (∀ f ∈ s.top thread, Produces s.shared f))
  | .request _ => .isTrue trivial
  | .reset stream => inferInstanceAs (Decidable (∀ f ∈ s.threads.flatten, f.concerns stream = false))

end Machine

section Weights
variable [DecidableEq L] [DecidableEq D]

def owns (t : TaskId L D) (f : Frame L D E) : Nat :=
  match f.stage with
  | .doWorkAsync _ u | .node _ u | .doneWaitingTask u _ | .decrement u => if t = u then 1 else 0
  | .prefetch w _ => if t = .runModule w then 1 else 0
  | _ => 0

def works (w : ModuleWrapper L D) (f : Frame L D E) : Nat :=
  match f.stage with
  | .execute v | .queued v _ | .runModule v _ | .body v _ | .get v _ _ _ | .regionEnd _ v _ _ _
  | .doneWaiting v _ => if w = v then 1 else 0
  | _ => 0

theorem owns_spawned (t u : TaskId L D) (r : Option Nat) :
    weigh (owns t) (↑(u.spawned r : List (Frame L D E)) : Multiset (Frame L D E)) = 0 := by
  cases u <;> simp [TaskId.spawned,owns]

theorem works_spawned (w : ModuleWrapper L D) (u : TaskId L D) (r : Option Nat) :
    weigh (works w) (↑(u.spawned r : List (Frame L D E)) : Multiset (Frame L D E)) =
      if u = .runModule w then 1 else 0 := by
  cases u <;> simp [TaskId.spawned,works,eq_comm]

theorem works_executing {f : Frame L D E} {w : ModuleWrapper L D} (executing : f.executing = some w) :
    works w f = 1 := by
  obtain ⟨region,stage⟩ := f
  cases stage <;> cases executing <;> simp [works]

/-- The frame has no part in the event of the stream. -/
theorem concerns_works {f : Frame L D E} {stream : Nat} (apart : f.concerns stream = false)
    {w : ModuleWrapper L D} (inside : w.stream = stream) : works w f = 0 := by
  obtain ⟨region,stage⟩ := f
  cases stage <;> simp only [Frame.concerns] at apart <;> simp only [works] <;> grind

theorem concerns_owns {f : Frame L D E} {stream : Nat} (apart : f.concerns stream = false)
    {w : ModuleWrapper L D} (inside : w.stream = stream) : owns (.runModule w) f = 0 := by
  obtain ⟨region,stage⟩ := f
  cases stage <;> simp only [Frame.concerns] at apart <;> simp only [owns] <;> grind [TaskId.concerns]

end Weights

section Owners
variable [DecidableEq L] [DecidableEq D] {job : Job L D E} {sh : Shared L D E} {f : Frame L D E}
  {r : Reaction (Shared L D E) (Frame L D E)} {rest : Multiset (Frame L D E)}

theorem beginGet_eq (job : Job L D E) (sh : Shared L D E) (w : ModuleWrapper L D) :
    ∃ count calls callers, sh.beginGet job w =
      {sh with pauseCount := count, queueCalls := calls, callers := callers} := by
  unfold Shared.beginGet
  split
  · exact ⟨_,_,_,rfl⟩
  · exact ⟨_,_,_,rfl⟩

theorem owners_react (owners : ∀ t, sh.refCount t = weigh (owns t) (f ::ₘ rest))
    (reacts : Reacts job sh f r) (t : TaskId L D) :
    r.shared.refCount t = weigh (owns t) (r.frames + rest) := by
  have owned := owners t
  cases reacts with
  | decrementLast region u last | decrement region u more =>
    simp only [weigh_cons,owns] at owned
    simp only [Reaction.frames_mk,List.nil_append,weigh_add,owns_spawned,weigh_zero,Multiset.coe_nil,Shared.drop]
    split_ifs at owned ⊢ <;> omega
  | startWork | prefetch | parallel =>
    simp [owns,Shared.start,Shared.hold] at owned ⊢
    omega
  | get region w =>
    obtain ⟨count,calls,callers,same⟩ := beginGet_eq job sh w
    rw [same]
    simpa [owns] using owned
  | _ =>
    simpa [owns,Shared.dependentTaskFailed,Shared.choose,Shared.setValue,Shared.ended,Shared.endGet,
      Shared.doneWaiting] using owned

theorem work_react (owners : ∀ t, sh.refCount t = weigh (owns t) (f ::ₘ rest))
    (work : ∀ w, weigh (works w) (f ::ₘ rest) + min 1 (sh.refCount (.runModule w)) + (sh.outcomes w).length =
      (sh.workStarted w).toNat)
    (reacts : Reacts job sh f r) (w : ModuleWrapper L D) :
    weigh (works w) (r.frames + rest) + min 1 (r.shared.refCount (.runModule w)) +
      (r.shared.outcomes w).length = (r.shared.workStarted w).toNat := by
  have owned := owners (.runModule w)
  have working := work w
  cases reacts with
  | decrementLast region u last =>
    simp only [Reaction.frames_mk,List.nil_append,weigh_add,works_spawned]
    simp only [weigh_cons,works,owns] at owned working
    simp only [Shared.drop]
    split_ifs at owned working ⊢ <;> grind
  | decrement region u more =>
    simp only [weigh_cons,works,owns] at owned working
    simp only [Shared.drop,Reaction.frames_mk,List.nil_append,weigh_nil]
    split_ifs at owned working ⊢ <;> grind
  | startWork region v started =>
    simp only [weigh_cons,works,owns] at owned working
    simp only [Shared.start,Shared.hold,Function.update_apply]
    simp [works]
    split_ifs at working ⊢ <;> grind
  | prefetch region v g gs =>
    simp [works,owns,Shared.hold] at owned working ⊢
    split_ifs at owned working ⊢ <;> grind
  | parallel region v target count next missing =>
    simp only [Shared.hold,reduceCtorEq,if_false,Nat.add_zero]
    simpa [works] using working
  | doneWaiting region v e =>
    simp only [weigh_cons,works] at working
    simp only [Shared.doneWaiting,Function.update_apply]
    simp
    split_ifs at working ⊢ <;> grind
  | get region v =>
    obtain ⟨count,calls,callers,same⟩ := beginGet_eq job sh v
    rw [same]
    simpa [works] using working
  | _ =>
    simpa [works,Shared.dependentTaskFailed,Shared.choose,Shared.setValue,Shared.ended,Shared.endGet]
      using working

/-- A wrapper that is at work has been started. -/
theorem works_started {bag : Multiset (Frame L D E)}
    (work : ∀ w, weigh (works w) bag + min 1 (sh.refCount (.runModule w)) + (sh.outcomes w).length =
      (sh.workStarted w).toNat)
    {w : ModuleWrapper L D} (member : f ∈ bag) (working : 0 < works w f) : sh.workStarted w = true := by
  have heavy := weigh_pos member working
  have once := work w
  by_contra unstarted
  rw [Bool.eq_false_iff.mpr unstarted,Bool.toNat_false] at once
  omega

end Owners

/-- An execution has ended without an exception and left the product of the wrapper in its cache. -/
def Shared.Finished (sh : Shared L D E) (w : ModuleWrapper L D) : Prop :=
  ⟨w,none⟩ ∈ sh.ran ∧
    match w.key with
    | .filter _ => True
    | .producer _ _ => (sh.cache w).wasCached = true

/-- What the frame knows of the `doneTask` it holds or waits for, and of the execution that it announces. -/
def Carries (sh : Shared L D E) (f : Frame L D E) : Prop :=
  match f.stage with
  | .doWorkAsync w (.doneTask k target) | .node w (.doneTask k target) =>
    w = target ∧ sh.exceptionPtr (.doneTask k target) = none
  | .doneWaitingTask (.doneTask k target) e =>
    sh.exceptionPtr (.doneTask k target) = none ∧ e ∈ sh.outcomes target
  | .decrement (.doneTask k target) => sh.exceptionPtr (.doneTask k target) ∈ sh.outcomes target
  | .get _ target _ _ => ∃ label product, target.key = .producer label product
  | .regionEnd k _ target _ _ => (∃ label product, target.key = .producer label product) ∧
      (sh.refCount (.doneTask k target) = 0 → sh.exceptionPtr (.doneTask k target) ∈ sh.outcomes target)
  | .doneWaiting w none => sh.Finished w
  | _ => True

section Kept
variable [DecidableEq L] [DecidableEq D]

structure Kept (sh : Shared L D E) (bag : Multiset (Frame L D E)) : Prop where
  owners : ∀ t, sh.refCount t = weigh (owns t) bag
  work : ∀ w, weigh (works w) bag + min 1 (sh.refCount (.runModule w)) + (sh.outcomes w).length =
    (sh.workStarted w).toNat
  closed : ∀ w, (sh.list w).waiting = false → (sh.list w).exceptionPtr ∈ sh.outcomes w
  cached : ∀ w, (sh.cache w).wasCached = true → sh.put w = some (sh.cache w).value
  finished : ∀ w, none ∈ sh.outcomes w → sh.Finished w
  failed : ∀ w e, ⟨w,some e⟩ ∈ sh.ran → some e ∈ sh.outcomes w ∨ ∃ r, ⟨r,.doneWaiting w (some e)⟩ ∈ bag
  carries : ∀ f ∈ bag, Carries sh f
  single : ∀ k target, sh.refCount (.doneTask k target) ≤ 1
  fresh : ∀ k target, sh.regions ≤ k →
    sh.refCount (.doneTask k target) = 0 ∧ sh.exceptionPtr (.doneTask k target) = none

variable {job : Job L D E} {sh : Shared L D E} {f : Frame L D E}
  {r : Reaction (Shared L D E) (Frame L D E)} {rest : Multiset (Frame L D E)}

theorem ran_react (reacts : Reacts job sh f r) : ∀ run ∈ sh.ran, run ∈ r.shared.ran := by
  intro run member
  cases reacts with
  | get region w =>
    obtain ⟨count,calls,callers,same⟩ := beginGet_eq job sh w
    rw [same]
    exact member
  | finish | throw => exact List.mem_append_left _ member
  | _ => exact member

theorem outcomes_react (reacts : Reacts job sh f r) (w : ModuleWrapper L D) :
    ∀ outcome ∈ sh.outcomes w, outcome ∈ r.shared.outcomes w := by
  intro outcome member
  cases reacts with
  | get region v =>
    obtain ⟨count,calls,callers,same⟩ := beginGet_eq job sh v
    rw [same]
    exact member
  | doneWaiting region v e =>
    simp only [Shared.doneWaiting,Function.update_apply]
    split_ifs with same
    · exact List.mem_append_left _ (same ▸ member)
    · exact member
  | _ => exact member

theorem wasCached_react (reacts : Reacts job sh f r) (w : ModuleWrapper L D)
    (cached : (sh.cache w).wasCached = true) : (r.shared.cache w).wasCached = true := by
  cases reacts with
  | get region v =>
    obtain ⟨count,calls,callers,same⟩ := beginGet_eq job sh v
    rw [same]
    exact cached
  | put region v label key product value next producer =>
    simp only [Shared.setValue,Function.update_apply]
    split_ifs
    · rfl
    · exact cached
  | _ => exact cached

theorem finished_react (reacts : Reacts job sh f r) {w : ModuleWrapper L D} (finished : sh.Finished w) :
    r.shared.Finished w := by
  obtain ⟨stream,key⟩ := w
  refine ⟨ran_react reacts _ finished.1,?_⟩
  cases key with
  | filter label => trivial
  | producer label product => exact wasCached_react reacts _ finished.2

theorem Kept.closed_react (kept : Kept sh (f ::ₘ rest)) (reacts : Reacts job sh f r) (w : ModuleWrapper L D)
    (closed : (r.shared.list w).waiting = false) :
    (r.shared.list w).exceptionPtr ∈ r.shared.outcomes w := by
  cases reacts with
  | get region v =>
    obtain ⟨count,calls,callers,same⟩ := beginGet_eq job sh v
    rw [same] at closed ⊢
    exact kept.closed w closed
  | doneWaiting region v e =>
    simp only [Shared.doneWaiting,Function.update_apply] at closed ⊢
    split_ifs with same
    · exact List.mem_append_right _ (List.mem_singleton_self _)
    · rw [if_neg same] at closed
      exact kept.closed w closed
  | _ => exact kept.closed w closed

theorem Kept.cached_react (kept : Kept sh (f ::ₘ rest)) (reacts : Reacts job sh f r) (w : ModuleWrapper L D)
    (cached : (r.shared.cache w).wasCached = true) : r.shared.put w = some (r.shared.cache w).value := by
  cases reacts with
  | get region v =>
    obtain ⟨count,calls,callers,same⟩ := beginGet_eq job sh v
    rw [same] at cached ⊢
    exact kept.cached w cached
  | put region v label key product value next producer =>
    simp only [Shared.setValue,Function.update_apply] at cached ⊢
    split_ifs with same
    · rfl
    · rw [if_neg same] at cached
      exact kept.cached w cached
  | _ => exact kept.cached w cached

theorem Kept.finished_react (kept : Kept sh (f ::ₘ rest)) (reacts : Reacts job sh f r)
    (w : ModuleWrapper L D) (announced : none ∈ r.shared.outcomes w) : r.shared.Finished w := by
  have before (announced : none ∈ sh.outcomes w) := OpenMP.finished_react reacts (kept.finished w announced)
  cases reacts with
  | get region v =>
    obtain ⟨count,calls,callers,same⟩ := beginGet_eq job sh v
    rw [same] at announced before ⊢
    exact before announced
  | doneWaiting region v e =>
    simp only [Shared.doneWaiting,Function.update_apply] at announced
    split_ifs at announced with same
    · rw [← same] at announced
      rcases List.mem_append.mp announced with old | new
      · exact before old
      · obtain rfl := List.mem_singleton.mp new
        have carries : sh.Finished v := kept.carries _ (Multiset.mem_cons_self _ _)
        rw [same]
        exact carries
    · exact before announced
  | _ => exact before announced

theorem Kept.failed_react (kept : Kept sh (f ::ₘ rest)) (reacts : Reacts job sh f r)
    (w : ModuleWrapper L D) (e : E) (thrown : ⟨w,some e⟩ ∈ r.shared.ran) :
    some e ∈ r.shared.outcomes w ∨ ∃ q, ⟨q,.doneWaiting w (some e)⟩ ∈ r.frames + rest := by
  have before (thrown : ⟨w,some e⟩ ∈ sh.ran) :
      some e ∈ r.shared.outcomes w ∨ ∃ q, ⟨q,.doneWaiting w (some e)⟩ ∈ r.frames + rest := by
    rcases kept.failed w e thrown with announced | ⟨q,member⟩
    · exact Or.inl (outcomes_react reacts w _ announced)
    · rcases Multiset.mem_cons.mp member with rfl | other
      · cases reacts
        left
        simp [Shared.doneWaiting]
      · exact Or.inr ⟨q,Multiset.mem_add.mpr (Or.inr other)⟩
  cases reacts with
  | get region v =>
    obtain ⟨count,calls,callers,same⟩ := beginGet_eq job sh v
    rw [same] at thrown before ⊢
    exact before thrown
  | finish region v =>
    rcases List.mem_append.mp thrown with old | new
    · exact before old
    · cases List.mem_singleton.mp new
  | throw region v x =>
    rcases List.mem_append.mp thrown with old | new
    · exact before old
    · cases List.mem_singleton.mp new
      exact Or.inr ⟨region,Multiset.mem_add.mpr (Or.inl (List.mem_singleton_self _))⟩
  | _ => exact before thrown

/-- Only a holder of a `doneTask` stores an exception in it. -/
theorem exceptionPtr_react (reacts : Reacts job sh f r) (k : Nat) (target : ModuleWrapper L D) :
    r.shared.exceptionPtr (.doneTask k target) = sh.exceptionPtr (.doneTask k target) ∨
      ∃ q e, f = ⟨q,.doneWaitingTask (.doneTask k target) e⟩ := by
  cases reacts with
  | get region v =>
    obtain ⟨count,calls,callers,same⟩ := beginGet_eq job sh v
    rw [same]
    exact Or.inl rfl
  | startWork region v started => simp [Shared.start]
  | doneWaitingTask region t e =>
    by_cases same : t = .doneTask k target
    · exact Or.inr ⟨region,e,by rw [same]⟩
    · simp [Shared.dependentTaskFailed,Ne.symm same]
  | _ => exact Or.inl rfl

theorem refCount_react (reacts : Reacts job sh f r) (k : Nat) (target : ModuleWrapper L D)
    (gone : r.shared.refCount (.doneTask k target) = 0) :
    sh.refCount (.doneTask k target) = 0 ∨ ∃ q, f = ⟨q,.decrement (.doneTask k target)⟩ := by
  cases reacts with
  | get region v =>
    obtain ⟨count,calls,callers,same⟩ := beginGet_eq job sh v
    rw [same] at gone
    exact Or.inl gone
  | decrementLast region t | decrement region t =>
    by_cases same : t = .doneTask k target
    · exact Or.inr ⟨region,by rw [same]⟩
    · simp only [Shared.drop,if_neg (Ne.symm same)] at gone
      exact Or.inl gone
  | startWork | prefetch | parallel =>
    simp only [Shared.start,Shared.hold] at gone
    omega
  | _ => exact Or.inl gone

theorem Kept.single_react (kept : Kept sh (f ::ₘ rest)) (reacts : Reacts job sh f r) (k : Nat)
    (target : ModuleWrapper L D) : r.shared.refCount (.doneTask k target) ≤ 1 := by
  have before := kept.single k target
  cases reacts with
  | get region v =>
    obtain ⟨count,calls,callers,same⟩ := beginGet_eq job sh v
    rw [same]
    exact before
  | decrementLast | decrement =>
    simp only [Shared.drop]
    omega
  | startWork | prefetch => simpa [Shared.start,Shared.hold] using before
  | parallel region w other count next missing =>
    simp only [Shared.hold]
    split_ifs with same
    · cases same
      have unused := (kept.fresh sh.regions target (Nat.le_refl _)).1
      omega
    · exact before
  | _ => exact before

theorem Kept.fresh_react (kept : Kept sh (f ::ₘ rest)) (reacts : Reacts job sh f r) (k : Nat)
    (target : ModuleWrapper L D) (later : r.shared.regions ≤ k) :
    r.shared.refCount (.doneTask k target) = 0 ∧ r.shared.exceptionPtr (.doneTask k target) = none := by
  cases reacts with
  | get region v =>
    obtain ⟨count,calls,callers,same⟩ := beginGet_eq job sh v
    rw [same] at later ⊢
    exact kept.fresh k target later
  | decrementLast | decrement =>
    obtain ⟨unused,unset⟩ := kept.fresh k target later
    refine ⟨?_,unset⟩
    simp only [Shared.drop,unused,Nat.zero_sub]
  | doneWaitingTask region t e =>
    obtain ⟨unused,unset⟩ := kept.fresh k target later
    have other : TaskId.doneTask k target ≠ t := by
      rintro rfl
      have owned := kept.owners (.doneTask k target)
      rw [weigh_cons,unused] at owned
      simp [owns] at owned
      omega
    refine ⟨unused,?_⟩
    simpa [Shared.dependentTaskFailed,other] using unset
  | startWork | prefetch => simpa [Shared.start,Shared.hold] using kept.fresh k target later
  | parallel region w other count next missing =>
    have later : sh.regions < k := later
    obtain ⟨unused,unset⟩ := kept.fresh k target (Nat.le_of_lt later)
    refine ⟨?_,unset⟩
    have apart : k ≠ sh.regions := Nat.ne_of_gt later
    simp [Shared.hold,unused,apart]
  | _ => exact kept.fresh k target later

/-- What a frame knows stays true when the others do nothing to its `doneTask`. -/
theorem Carries.mono {sh' : Shared L D E} {g : Frame L D E} (carries : Carries sh g)
    (unset : ∀ k target, sh'.exceptionPtr (.doneTask k target) = sh.exceptionPtr (.doneTask k target) ∨
      owns (.doneTask k target) g = 0 ∧ sh'.refCount (.doneTask k target) ≠ 0)
    (told : ∀ k target, sh'.refCount (.doneTask k target) = 0 → sh.refCount (.doneTask k target) = 0 ∨
      sh'.exceptionPtr (.doneTask k target) ∈ sh'.outcomes target)
    (outcomes : ∀ w, g.concerns w.stream = true → ∀ outcome ∈ sh.outcomes w, outcome ∈ sh'.outcomes w)
    (finished : ∀ w, g.concerns w.stream = true → sh.Finished w → sh'.Finished w) : Carries sh' g := by
  obtain ⟨region,stage⟩ := g
  cases stage with
  | doWorkAsync w t | node w t =>
    cases t with
    | doneTask k target =>
      have same := (unset k target).resolve_right (by simp [owns])
      refine ⟨carries.1,?_⟩
      rw [same]
      exact carries.2
    | _ => trivial
  | doneWaitingTask t e =>
    cases t with
    | doneTask k target =>
      have same := (unset k target).resolve_right (by simp [owns])
      refine ⟨?_,outcomes target (by simp [Frame.concerns,TaskId.concerns]) e carries.2⟩
      rw [same]
      exact carries.1
    | _ => trivial
  | decrement t =>
    cases t with
    | doneTask k target =>
      have same := (unset k target).resolve_right (by simp [owns])
      simp only [Carries] at carries ⊢
      rw [same]
      exact outcomes target (by simp [Frame.concerns,TaskId.concerns]) _ carries
    | _ => trivial
  | get w target count next => exact carries
  | regionEnd k w target count next =>
    refine ⟨carries.1,fun gone => ?_⟩
    rcases told k target gone with before | after
    · rcases unset k target with same | ⟨_,more⟩
      · rw [same]
        exact outcomes target (by simp [Frame.concerns]) _ (carries.2 before)
      · exact absurd gone more
    · exact after
  | doneWaiting w e =>
    cases e with
    | none => exact finished w (by simp [Frame.concerns]) carries
    | some e => trivial
  | _ => trivial

/-- What the frames know that take the place of the one that acted. -/
theorem Kept.carries_frames (kept : Kept sh (f ::ₘ rest)) (produces : Produces sh f)
    (reacts : Reacts job sh f r) : ∀ g ∈ r.frames, Carries r.shared g := by
  have carries := kept.carries f (Multiset.mem_cons_self f rest)
  intro g member
  cases reacts with
  | add region w t waiting =>
    simp at member
    rcases member with rfl | rfl
    · trivial
    · cases t <;> exact carries
  | addLate region w t waiting =>
    simp at member
    rcases member with rfl | rfl
    · cases t with
      | doneTask k target =>
        obtain ⟨rfl,unset⟩ := carries
        exact ⟨unset,kept.closed w waiting⟩
      | _ => trivial
    · trivial
  | node region q w t waiting =>
    obtain rfl : g = _ := by simpa using member
    cases t with
    | doneTask k target =>
      obtain ⟨rfl,unset⟩ := carries
      exact ⟨unset,kept.closed w waiting⟩
    | _ => trivial
  | prefetch region w h gs =>
    simp at member
    rcases member with rfl | rfl <;> trivial
  | doneWaitingTask region t e =>
    obtain rfl : g = _ := by simpa using member
    cases t with
    | doneTask k target =>
      obtain ⟨unset,announced⟩ := carries
      simpa [Carries,Shared.dependentTaskFailed,unset] using announced
    | _ => trivial
  | decrementLast region t last =>
    cases t with
    | runModule w =>
      obtain rfl : g = _ := by simpa [TaskId.spawned] using member
      trivial
    | _ => simp [TaskId.spawned] at member
  | queued region k w e q =>
    simp at member
    rcases member with rfl | rfl <;> trivial
  | finish region w =>
    obtain rfl : g = _ := by simpa using member
    refine ⟨List.mem_append_right _ (List.mem_singleton_self _),?_⟩
    obtain ⟨stream,key⟩ := w
    cases key with
    | filter label => trivial
    | producer label product => exact produces
  | parallel region w target count next missing =>
    simp at member
    rcases member with rfl | rfl
    · exact ⟨rfl,(kept.fresh sh.regions target (Nat.le_refl _)).2⟩
    · refine ⟨carries,fun gone => ?_⟩
      simp [Shared.hold] at gone
  | get region w target label product next known =>
    obtain rfl : g = _ := by simpa using member
    exact ⟨label,product,by rw [known]⟩
  | startRefused | decrement | finishedTask | doneWaiting => simp at member
  | _ =>
    obtain rfl : g = _ := by simpa using member
    trivial

theorem Kept.react (kept : Kept sh (f ::ₘ rest)) (produces : Produces sh f) (reacts : Reacts job sh f r) :
    Kept r.shared (r.frames + rest) where
  owners := owners_react kept.owners reacts
  work := work_react kept.owners kept.work reacts
  closed := kept.closed_react reacts
  cached := kept.cached_react reacts
  finished := kept.finished_react reacts
  failed := kept.failed_react reacts
  single := kept.single_react reacts
  fresh := kept.fresh_react reacts
  carries := by
    intro g member
    rcases Multiset.mem_add.mp member with new | other
    · exact kept.carries_frames produces reacts g new
    · have carries := kept.carries g (Multiset.mem_cons_of_mem other)
      apply carries.mono
      · intro k target
        rcases exceptionPtr_react reacts k target with same | ⟨q,e,rfl⟩
        · exact Or.inl same
        · -- The frame that acts is the only holder of the task.
          have one := kept.single k target
          have owned := kept.owners (.doneTask k target)
          rw [weigh_cons] at owned
          simp only [owns,if_true] at owned
          have light : weigh (owns (.doneTask k target)) rest = 0 := by omega
          refine Or.inr ⟨weigh_eq_zero light other,?_⟩
          cases reacts
          simp only [Shared.dependentTaskFailed]
          omega
      · intro k target gone
        rcases refCount_react reacts k target gone with before | ⟨q,rfl⟩
        · exact Or.inl before
        · have announced := kept.carries _ (Multiset.mem_cons_self _ _)
          cases reacts <;> exact Or.inr announced
      · intro w _
        exact outcomes_react reacts w
      · intro w _
        exact OpenMP.finished_react reacts

omit [DecidableEq L] [DecidableEq D] in
theorem reset_outcomes {stream : Nat} {w : ModuleWrapper L D} (other : w.stream ≠ stream) :
    (sh.reset stream).outcomes w = sh.outcomes w := if_neg other

omit [DecidableEq L] [DecidableEq D] in
theorem reset_cache {stream : Nat} {w : ModuleWrapper L D} (other : w.stream ≠ stream) :
    (sh.reset stream).cache w = sh.cache w := if_neg other

omit [DecidableEq L] [DecidableEq D] in
theorem mem_reset_ran {stream : Nat} {run : Run L D E} :
    run ∈ (sh.reset stream).ran ↔ run ∈ sh.ran ∧ run.wrapper.stream ≠ stream := by
  simp [Shared.reset]

omit [DecidableEq L] [DecidableEq D] in
theorem reset_finished {stream : Nat} {w : ModuleWrapper L D} (other : w.stream ≠ stream)
    (finished : sh.Finished w) : (sh.reset stream).Finished w := by
  refine ⟨mem_reset_ran.mpr ⟨finished.1,other⟩,?_⟩
  rw [reset_cache other]
  exact finished.2

theorem Kept.reset {bag : Multiset (Frame L D E)} (kept : Kept sh bag) {stream : Nat}
    (quiet : ∀ f ∈ bag, f.concerns stream = false) : Kept (sh.reset stream) bag where
  owners := kept.owners
  single := kept.single
  fresh := kept.fresh
  work w := by
    by_cases inside : w.stream = stream
    · have idle : weigh (works w) bag = 0 := weigh_light fun f member => concerns_works (quiet f member) inside
      have unowned := kept.owners (.runModule w)
      rw [weigh_light fun f member => concerns_owns (quiet f member) inside] at unowned
      simp [Shared.reset,inside,idle,unowned]
    · simpa [Shared.reset,inside] using kept.work w
  closed w closed := by
    by_cases inside : w.stream = stream
    · simp [Shared.reset,inside] at closed
    · rw [reset_outcomes inside]
      simp only [Shared.reset,if_neg inside] at closed ⊢
      exact kept.closed w closed
  cached w cached := by
    by_cases inside : w.stream = stream
    · simp [Shared.reset,inside] at cached
    · rw [reset_cache inside] at cached ⊢
      exact (if_neg inside).trans (kept.cached w cached)
  finished w announced := by
    by_cases inside : w.stream = stream
    · simp [Shared.reset,inside] at announced
    · rw [reset_outcomes inside] at announced
      exact reset_finished inside (kept.finished w announced)
  failed w e thrown := by
    obtain ⟨member,inside⟩ := mem_reset_ran.mp thrown
    rw [reset_outcomes inside]
    exact kept.failed w e member
  carries := by
    intro g member
    have apart (w : ModuleWrapper L D) (concerned : g.concerns w.stream = true) : w.stream ≠ stream := by
      rintro rfl
      rw [quiet g member] at concerned
      cases concerned
    apply (kept.carries g member).mono
    · exact fun k target => Or.inl rfl
    · exact fun k target gone => Or.inl gone
    · intro w concerned
      rw [reset_outcomes (apart w concerned)]
      exact fun outcome announced => announced
    · intro w concerned
      exact reset_finished (apart w concerned)

theorem Kept.request {bag : Multiset (Frame L D E)} (kept : Kept sh bag) (w : ModuleWrapper L D)
    (region : Option Nat) : Kept (sh.hold .outside) (⟨region,.doWorkAsync w .outside⟩ ::ₘ bag) where
  owners t := by
    simp only [Shared.hold,weigh_cons,owns]
    rw [kept.owners t,Nat.add_comm]
  work v := by simpa [Shared.hold,works] using kept.work v
  closed := kept.closed
  cached := kept.cached
  finished v announced := kept.finished v announced
  failed v e thrown := (kept.failed v e thrown).imp_right fun ⟨q,member⟩ =>
    ⟨q,Multiset.mem_cons_of_mem member⟩
  carries := by
    intro g member
    rcases Multiset.mem_cons.mp member with rfl | other
    · trivial
    · apply (kept.carries g other).mono
      · exact fun k target => Or.inl rfl
      · intro k target gone
        left
        simpa [Shared.hold] using gone
      · exact fun _ _ _ announced => announced
      · exact fun _ _ finished => finished
  single k target := by simpa [Shared.hold] using kept.single k target
  fresh k target later := by simpa [Shared.hold] using kept.fresh k target later

theorem Kept.next {s t : State L D E} {a : Action L D} (kept : Kept s.shared s.bag)
    (careful : Careful s a) (taken : next job s a = some t) : Kept t.shared t.bag := by
  cases a with
  | act thread choice =>
    obtain ⟨f,r,rest,reacted,shared,before,after,top⟩ := Pool.step_bag (Queues.step_idle taken).1
    rw [before] at kept
    rw [shared,after]
    exact kept.react (careful f top) (react_reacts reacted)
  | request w =>
    cases taken
    rw [Pool.bag_spawn]
    exact kept.request w none
  | reset stream =>
    cases taken
    exact kept.reset fun f member => careful f (Multiset.mem_coe.mp member)

theorem kept {s : State L D E} (run : Reaches (next job) Careful (initial L D E) s) :
    Kept s.shared s.bag := by
  have preserved (s : State L D E) (a : Action L D) (t : State L D E) (kept : Kept s.shared s.bag)
      (careful : Careful s a) (taken : next job s a = some t) : Kept t.shared t.bag :=
    kept.next careful taken
  have start : Kept (initial L D E).shared (initial L D E).bag := by
    constructor <;> simp [initial,Pool.bag]
  exact Reaches.invariant preserved run start

/-- A wrapper that has announced the outcome of its work is done with it. -/
theorem Kept.announced {bag : Multiset (Frame L D E)} (kept : Kept sh bag) {w : ModuleWrapper L D} {outcome : Option E} (announced : outcome ∈ sh.outcomes w) :
    sh.outcomes w = [outcome] ∧ weigh (works w) bag = 0 := by
  have work := kept.work w
  have once := Bool.toNat_le (sh.workStarted w)
  have some := List.length_pos_of_mem announced
  obtain ⟨only,alone⟩ := List.length_eq_one_iff.mp (by omega : (sh.outcomes w).length = 1)
  rw [alone] at announced
  obtain rfl := List.mem_singleton.mp announced
  exact ⟨alone,by omega⟩

end Kept
end ToyMtFramework.OpenMP
