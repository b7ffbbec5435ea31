import ToyMtFramework.OpenMPGetWork
import ToyMtFramework.OpenMPGetStreams

/-! What is known of a producer whose product is there. When a body puts the product of its wrapper last,
all that is left to it is to return; a producer is asked for one product at a time unless a wrapper of
another one has been started. -/
namespace ToyMtFramework.OpenMP
open Activities

variable {L D E : Type}

def Program.isFinish : Program L D E → Bool
  | .finish => true
  | _ => false

/-- The module of the body has more to do than to return. -/
def Frame.busy (f : Frame L D E) : Option (ModuleWrapper L D) :=
  match f.stage with
  | .body _ .finish => none
  | _ => f.executing

def Frame.Closes (w : ModuleWrapper L D) (f : Frame L D E) : Prop :=
  f.stage = .body w .finish ∨ f.stage = .doneWaiting w none

section Job
variable [DecidableEq L] [DecidableEq D] (job : Job L D E)

/-- The wrappers of the producer of `target` for its other products. -/
def Job.others (target : ModuleWrapper L D) : List (ModuleWrapper L D) :=
  match job.module target.key with
  | none => []
  | some m => (m.products.map fun product => ⟨target.stream,.producer m.label product⟩).filter (· ≠ target)

def Alone (sh : Shared L D E) (target : ModuleWrapper L D) : Prop :=
  ∀ v ∈ job.others target, sh.workStarted v = false

def Frame.putsLast (f : Frame L D E) : Bool :=
  match f.stage with
  | .body w (.put product _ next) =>
    match w.key with
    | .filter _ => true
    | .producer _ key => product ≠ key || next.isFinish
  | _ => true

/-- What a call has been made for, and what a `get` asks for. -/
def Due (f : Frame L D E) : Prop :=
  match f.stage with
  | .doWorkAsync g (.runModule w) | .node g (.runModule w) => g ∈ job.getters w
  | .prefetch w gs => ∀ g ∈ gs, g ∈ job.getters w
  | .get _ target _ _ | .regionEnd _ _ target _ _ => (job.producerOf target.key).isSome = true
  | _ => True

/-- A product that is there has been put by a body that has nothing left to do, if no other wrapper of the
producer has been started. -/
def Sealed (sh : Shared L D E) (bag : Multiset (Frame L D E)) : Prop :=
  ∀ w, (sh.cache w).wasCached = true →
    (∃ v ∈ job.others w, sh.workStarted v = true) ∨ none ∈ sh.outcomes w ∨ ∃ f ∈ bag, f.Closes w

structure Informed (sh : Shared L D E) (bag : Multiset (Frame L D E)) : Prop where
  kept : Kept sh bag
  told : ∀ w, sh.outcomes w ≠ [] → (sh.list w).waiting = false
  due : ∀ f ∈ bag, Due job f
  sealed : Sealed job sh bag

instance (sh : Shared L D E) (target : ModuleWrapper L D) : Decidable (Alone job sh target) :=
  inferInstanceAs (Decidable (∀ v ∈ job.others target, sh.workStarted v = false))

end Job

section Machine
variable [DecidableEq L] [DecidableEq D] {job : Job L D E} {sh : Shared L D E} {f : Frame L D E}
  {r : Reaction (Shared L D E) (Frame L D E)} {rest bag : Multiset (Frame L D E)}

theorem mem_others {v target : ModuleWrapper L D} (known : (job.producerOf target.key).isSome = true)
    (same : job.SameProducer v target) (other : v ≠ target) : v ∈ job.others target := by
  obtain ⟨stream,key⟩ := v
  obtain ⟨_,wanted⟩ := target
  obtain ⟨rfl,same⟩ : stream = _ ∧ job.producerOf key = job.producerOf wanted := same
  obtain ⟨i,found⟩ := Option.isSome_iff_exists.mp known
  have mine := same.trans found
  cases key with
  | filter label => cases mine
  | producer label product =>
    cases wanted with
    | filter label => cases found
    | producer owner wanted =>
      obtain ⟨inside,holds,_⟩ := List.findIdx?_eq_some_iff_getElem.mp mine
      obtain ⟨labelled,produced⟩ := of_decide_eq_true holds
      have entry : job.module (.producer owner wanted) = some job.producers[i] := by
        rw [Job.module,found]
        exact List.getElem?_eq_getElem inside
      rw [Job.others,entry]
      refine List.mem_filter.mpr ⟨List.mem_map.mpr ⟨product,produced,?_⟩,decide_eq_true other⟩
      rw [labelled]

theorem others_stream {v target : ModuleWrapper L D} (other : v ∈ job.others target) :
    v.stream = target.stream := by
  unfold Job.others at other
  split at other
  · cases other
  · obtain ⟨product,_,rfl⟩ := List.mem_map.mp (List.mem_filter.mp other).1
    rfl

omit [DecidableEq L] [DecidableEq D] in
theorem busy_executing {w : ModuleWrapper L D} (busy : f.busy = some w) : f.executing = some w := by
  unfold Frame.busy at busy
  split at busy
  · cases busy
  · exact busy

/-- The producer has nothing to do when the wrapper has nothing to do and no other one has been started. -/
theorem Kept.rests (kept : Kept sh bag) {target : ModuleWrapper L D} (alone : Alone job sh target)
    (known : (job.producerOf target.key).isSome = true) (resting : ∀ f ∈ bag, f.busy ≠ some target) :
    ∀ f ∈ bag, ∀ v ∈ f.busy, ¬job.SameProducer v target := by
  intro f member v busy same
  by_cases own : v = target
  · exact resting f member (own ▸ busy)
  · have started := works_started kept.work member (by rw [works_executing (busy_executing busy)]; exact Nat.one_pos)
    rw [alone v (mem_others known same own)] at started
    cases started

theorem told_react (told : ∀ w, sh.outcomes w ≠ [] → (sh.list w).waiting = false) (reacts : Reacts job sh f r)
    (w : ModuleWrapper L D) (announced : r.shared.outcomes w ≠ []) : (r.shared.list w).waiting = false := by
  cases reacts with
  | get region v =>
    obtain ⟨count,calls,callers,same⟩ := beginGet_eq job sh v
    rw [same] at announced ⊢
    exact told w announced
  | doneWaiting region v e =>
    simp only [Shared.doneWaiting,Function.update_apply] at announced ⊢
    split_ifs with same
    · rfl
    · rw [if_neg same] at announced
      exact told w announced
  | _ => exact told w announced

theorem due_react (due : Due job f) (reacts : Reacts job sh f r) : ∀ g ∈ r.frames, Due job g := by
  intro g member
  cases reacts with
  | add region w t waiting =>
    rcases List.mem_pair.mp (Multiset.mem_coe.mp member) with rfl | rfl
    · trivial
    · cases t <;> exact due
  | startWork region w started =>
    obtain rfl := List.mem_singleton.mp (Multiset.mem_coe.mp member)
    exact fun g listed => listed
  | prefetch region w v gs =>
    rcases List.mem_pair.mp (Multiset.mem_coe.mp member) with rfl | rfl
    · exact due v List.mem_cons_self
    · exact fun u listed => due u (List.mem_cons_of_mem v listed)
  | decrementLast region t last =>
    have spawned : g ∈ (t.spawned region : List (Frame L D E)) := by simpa using member
    cases t with
    | runModule w =>
      obtain rfl := List.mem_singleton.mp spawned
      trivial
    | _ => cases spawned
  | get region w target label product next known producer =>
    obtain rfl := List.mem_singleton.mp (Multiset.mem_coe.mp member)
    exact producer
  | parallel region w target count next missing =>
    rcases List.mem_pair.mp (Multiset.mem_coe.mp member) with rfl | rfl
    · trivial
    · exact due
  | startRefused | finishedTask | decrement | doneWaiting => simp at member
  | _ =>
    simp only [Reaction.frames_mk,List.append_nil,List.nil_append,Multiset.mem_coe,
      List.mem_cons,List.not_mem_nil,or_false] at member
    rcases member with rfl | rfl <;> trivial

theorem started_react (reacts : Reacts job sh f r) {w : ModuleWrapper L D} (started : sh.workStarted w = true) :
    r.shared.workStarted w = true := by
  cases reacts with
  | get region v =>
    obtain ⟨count,calls,callers,same⟩ := beginGet_eq job sh v
    rw [same]
    exact started
  | startWork region v unstarted =>
    simp only [Shared.start,Function.update_apply]
    split_ifs
    · rfl
    · exact started
  | _ => exact started

theorem closes_react (reacts : Reacts job sh f r) {w : ModuleWrapper L D} (closes : f.Closes w) :
    none ∈ r.shared.outcomes w ∨ ∃ g ∈ r.frames, g.Closes w := by
  rcases closes with body | announcing
  · cases reacts <;> cases body
    exact Or.inr ⟨_,List.mem_singleton_self _,Or.inr rfl⟩
  · cases reacts <;> cases announcing
    left
    simp [Shared.doneWaiting]

/-- Only `put` makes a product be there. -/
theorem cache_react (reacts : Reacts job sh f r) (w : ModuleWrapper L D) :
    (r.shared.cache w).wasCached = (sh.cache w).wasCached ∨ ∃ v label key product value next,
      f.stage = .body v (.put product value next) ∧ v.key = .producer label key ∧
        w = ⟨v.stream,.producer label product⟩ ∧ (job.producerOf w.key).isSome = true ∧
          ⟨f.region,.body v next⟩ ∈ r.frames := by
  cases reacts with
  | get region v =>
    obtain ⟨count,calls,callers,same⟩ := beginGet_eq job sh v
    rw [same]
    exact Or.inl rfl
  | put region v label key product value next producer known =>
    by_cases same : w = ⟨v.stream,.producer label product⟩
    · subst same
      exact Or.inr ⟨v,label,key,product,value,next,rfl,producer,rfl,known,List.mem_singleton_self _⟩
    · left
      simp only [Shared.setValue,Function.update_of_ne same]
  | _ => exact Or.inl rfl

theorem Sealed.react (closed : Sealed job sh (f ::ₘ rest)) (kept : Kept sh (f ::ₘ rest)) (own : PutsOwn job f)
    (last : f.putsLast = true) (reacts : Reacts job sh f r) : Sealed job r.shared (r.frames + rest) := by
  intro w cached
  rcases cache_react reacts w with same | ⟨v,label,key,product,value,next,puts,producer,rfl,known,goes⟩
  · rw [same] at cached
    rcases closed w cached with ⟨v,other,started⟩ | announced | ⟨g,member,closes⟩
    · exact Or.inl ⟨v,other,started_react reacts started⟩
    · exact Or.inr (Or.inl (outcomes_react reacts w none announced))
    · rcases Multiset.mem_cons.mp member with rfl | old
      · rcases closes_react reacts closes with announced | ⟨h,new,closes⟩
        · exact Or.inr (Or.inl announced)
        · exact Or.inr (Or.inr ⟨h,Multiset.mem_add.mpr (Or.inl new),closes⟩)
      · exact Or.inr (Or.inr ⟨g,Multiset.mem_add.mpr (Or.inr old),closes⟩)
  · simp only [PutsOwn,puts,producer] at own
    simp only [Frame.putsLast,puts,producer] at last
    by_cases mine : product = key
    · -- The body has put the product of its own wrapper.
      subst mine
      have ends : next = .finish := by
        have returns : next.isFinish = true := by simpa using last
        cases next <;> cases returns
        rfl
      have whole : v = ⟨v.stream,.producer label product⟩ := by rw [← producer]
      rw [ends] at goes
      exact Or.inr (Or.inr ⟨_,Multiset.mem_add.mpr (Or.inl goes),Or.inl (by rw [← whole])⟩)
    · have started : sh.workStarted v = true :=
        works_started kept.work (Multiset.mem_cons_self f rest) (by simp [works,puts])
      refine Or.inl ⟨v,mem_others known ⟨rfl,?_⟩ ?_,started_react reacts started⟩
      · rw [producer]
        exact own.symm
      · intro same
        rw [same] at producer
        cases producer
        exact mine rfl

theorem Informed.react (informed : Informed job sh (f ::ₘ rest)) (produces : Produces sh f) (own : PutsOwn job f)
    (last : f.putsLast = true) (reacts : Reacts job sh f r) : Informed job r.shared (r.frames + rest) where
  kept := informed.kept.react produces reacts
  told := told_react informed.told reacts
  due := by
    intro g member
    rcases Multiset.mem_add.mp member with new | old
    · exact due_react (informed.due f (Multiset.mem_cons_self f rest)) reacts g new
    · exact informed.due g (Multiset.mem_cons_of_mem old)
  sealed := informed.sealed.react informed.kept own last reacts

theorem Informed.reset (informed : Informed job sh bag) {stream : Nat}
    (quiet : ∀ f ∈ bag, f.concerns stream = false) : Informed job (sh.reset stream) bag where
  kept := informed.kept.reset quiet
  told w announced := by
    by_cases inside : w.stream = stream
    · simp [Shared.reset,inside] at announced
    · rw [reset_outcomes inside] at announced
      simpa [Shared.reset,inside] using informed.told w announced
  due := informed.due
  sealed w cached := by
    by_cases inside : w.stream = stream
    · simp [Shared.reset,inside] at cached
    · rw [reset_cache inside] at cached
      rcases informed.sealed w cached with ⟨v,other,started⟩ | announced | closes
      · have apart : v.stream ≠ stream := by rwa [others_stream other]
        exact Or.inl ⟨v,other,by simpa [Shared.reset,apart] using started⟩
      · rw [reset_outcomes inside]
        exact Or.inr (Or.inl announced)
      · exact Or.inr (Or.inr closes)

theorem Informed.request (informed : Informed job sh bag) (w : ModuleWrapper L D) (region : Option Nat) :
    Informed job (sh.hold .outside) (⟨region,.doWorkAsync w .outside⟩ ::ₘ bag) where
  kept := informed.kept.request w region
  told := informed.told
  due := by
    intro f member
    rcases Multiset.mem_cons.mp member with rfl | old
    · trivial
    · exact informed.due f old
  sealed v cached := by
    rcases informed.sealed v cached with others | announced | ⟨f,member,closes⟩
    · exact Or.inl others
    · exact Or.inr (Or.inl announced)
    · exact Or.inr (Or.inr ⟨f,Multiset.mem_cons_of_mem member,closes⟩)

theorem Kept.announced_started (kept : Kept sh bag) {w : ModuleWrapper L D} {outcome : Option E}
    (announced : outcome ∈ sh.outcomes w) : sh.workStarted w = true := by
  have work := kept.work w
  have some := List.length_pos_of_mem announced
  by_contra unstarted
  rw [Bool.eq_false_iff.mpr unstarted,Bool.toNat_false] at work
  omega

/-- A wrapper is at work in one place. -/
theorem Kept.one (kept : Kept sh bag) {w : ModuleWrapper L D} {g : Frame L D E} (first : f ∈ bag)
    (second : g ∈ bag) (here : works w f = 1) (there : works w g = 1) : f = g := by
  by_contra apart
  obtain ⟨others,rfl⟩ := Multiset.exists_cons_of_mem second
  have later := (Multiset.mem_cons.mp first).resolve_left apart
  have work := kept.work w
  have heavy := weigh_pos later (by omega : 0 < works w f)
  have once := Bool.toNat_le (sh.workStarted w)
  rw [weigh_cons,there] at work
  omega

/-- The module has returned, or its body has nothing left to do. -/
def Closing (sh : Shared L D E) (bag : Multiset (Frame L D E)) (w : ModuleWrapper L D) : Prop :=
  none ∈ sh.outcomes w ∨ ∃ f ∈ bag, f.Closes w

omit [DecidableEq L] [DecidableEq D] in
theorem Frame.Closes.works [DecidableEq L] [DecidableEq D] {w : ModuleWrapper L D} (closes : f.Closes w) :
    OpenMP.works w f = 1 := by
  rcases closes with body | announcing
  · simp [OpenMP.works,body]
  · simp [OpenMP.works,announcing]

theorem Kept.closing_alone (kept : Kept sh bag) {w : ModuleWrapper L D} (closing : Closing sh bag w)
    (member : f ∈ bag) (working : works w f = 1) : f.Closes w := by
  rcases closing with announced | ⟨g,inside,closes⟩
  · have light := weigh_eq_zero (kept.announced announced).2 member
    omega
  · rw [kept.one member inside working closes.works]
    exact closes

theorem Kept.closing_succeeds (kept : Kept sh bag) {w : ModuleWrapper L D} (closing : Closing sh bag w)
    (e : E) : some e ∉ sh.outcomes w := by
  intro failed
  obtain ⟨only,resting⟩ := kept.announced failed
  rcases closing with announced | ⟨g,inside,closes⟩
  · rw [only] at announced
    cases List.mem_singleton.mp announced
  · have light := weigh_eq_zero resting inside
    rw [closes.works] at light
    cases light

theorem Kept.closing_unfailed (kept : Kept sh bag) {target : ModuleWrapper L D} (closing : Closing sh bag target)
    (alone : Alone job sh target) (known : (job.producerOf target.key).isSome = true) :
    Unfailed job sh target := by
  constructor
  · rintro ⟨v,thrown⟩ member same
    cases thrown with
    | none => rfl
    | some e =>
      by_cases own : v = target
      · subst own
        rcases kept.failed v e member with failed | ⟨q,announcing⟩
        · exact absurd failed (kept.closing_succeeds closing e)
        · rcases kept.closing_alone closing announcing (by simp [works]) with body | returned
          · cases body
          · cases returned
      · have started : sh.workStarted v = true := by
          rcases kept.failed v e member with failed | ⟨q,announcing⟩
          · exact kept.announced_started failed
          · exact works_started kept.work announcing (by simp [works])
        rw [alone v (mem_others known same own)] at started
        cases started
  · intro outcome announced
    cases outcome with
    | none => rfl
    | some e => exact absurd announced (kept.closing_succeeds closing e)

theorem Kept.closing_rests (kept : Kept sh bag) {target : ModuleWrapper L D} (closing : Closing sh bag target)
    (alone : Alone job sh target) (known : (job.producerOf target.key).isSome = true) :
    ∀ f ∈ bag, ∀ v ∈ f.busy, ¬job.SameProducer v target := by
  apply kept.rests alone known
  intro f member busy
  rcases kept.closing_alone closing member (works_executing (busy_executing busy)) with body | returned
  · simp [Frame.busy,body] at busy
  · simp [Frame.busy,Frame.executing,returned] at busy

theorem Kept.closing_performed (kept : Kept sh bag) {w : ModuleWrapper L D} (closing : Closing sh bag w) :
    (∃ run ∈ sh.ran, run.wrapper = w) ∨ ∃ f ∈ bag, f.stage = .body w .finish := by
  rcases closing with announced | ⟨⟨q,stage⟩,inside,body | returned⟩
  · exact Or.inl ⟨_,(kept.finished w announced).1,rfl⟩
  · exact Or.inr ⟨_,inside,body⟩
  · have carries := kept.carries _ inside
    cases returned
    exact Or.inl ⟨_,carries.1,rfl⟩

theorem Informed.closing (informed : Informed job sh bag) {target : ModuleWrapper L D}
    (cached : (sh.cache target).wasCached = true) (alone : Alone job sh target) : Closing sh bag target := by
  rcases informed.sealed target cached with ⟨v,other,started⟩ | closing
  · rw [alone v other] at started
    cases started
  · exact closing

end Machine
end ToyMtFramework.OpenMP
