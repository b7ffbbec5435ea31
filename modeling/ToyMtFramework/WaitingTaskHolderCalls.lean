import ToyMtFramework.WaitingTaskHolder
import Mathlib.Data.List.Count
import Mathlib.Tactic.SplitIfs

/-! What a call or a frame may do to holders and tasks, and which holders are in use. While a
member function is using a holder, only the end of that call changes what the holder owns. -/
namespace ToyMtFramework.WaitingTaskHolder
open Activities

variable {E : Type}

@[simp] theorem owns_doneWaiting (owner : Owner) (t u : Nat) (e : Option E) :
    owns t (doneWaiting owner u e) = if t = u then 1 else 0 := by
  cases e <;> rfl

@[simp] theorem runs_doneWaiting (owner : Owner) (t u : Nat) (e : Option E) :
    runs t (doneWaiting owner u e) = 0 := by
  cases e <;> rfl

def uses (k : Nat) : Frame E → Nat
  | .dependentTaskFailed (.preset j) _ _ | .exchange (.preset j) _ _ | .returning j
  | .dependentTaskFailed (.releasing (.object j _)) _ _ | .exchange (.releasing (.object j _)) _ _
  | .release (.object j _) _ => if k = j then 1 else 0
  | _ => 0

def stores (t : Nat) : Frame E → Nat
  | .exchange _ u _ => if t = u then 1 else 0
  | _ => 0

@[simp] theorem uses_doneWaiting (owner : Owner) (k t : Nat) (e : Option E) :
    uses k (doneWaiting owner t e) = uses k (.release owner t : Frame E) := by
  cases e with
  | none => rfl
  | some e => cases owner <;> rfl

@[simp] theorem stores_doneWaiting (owner : Owner) (t u : Nat) (e : Option E) :
    stores t (doneWaiting owner u e) = 0 := by
  cases e <;> rfl

def Shared.task (sh : Shared E) (k : Nat) : Option Nat := sh.holders[k]?.bind Holder.task

def Shared.calls (sh : Shared E) (k : Nat) : Nat := (sh.holders[k]?.map Holder.calls).getD 0

/-- A frame that hands over its task without more ado. -/
inductive Passes : Frame E → Frame E → Prop
  | add (l t : Nat) : Passes (.add l t) (.node l t)
  | addLate (l t : Nat) (e : Option E) : Passes (.add l t) (doneWaiting (.temporary .plain) t e)
  | node (l t : Nat) : Passes (.node l t) (.announced l t)
  | announced (l t : Nat) (e : Option E) : Passes (.announced l t) (doneWaiting .node t e)
  | enqueued (t : Nat) : Passes (.enqueued t) (.execute t)

inductive Reacts (sh : Shared E) : List (Frame E) → Shared E → List (Frame E) → Prop
  | create (kind : Kind) (t : Nat) (fresh : t ∉ sh.created) : Reacts sh []
      (({sh with created := sh.created ++ [t]}.increment t).addHolder ⟨kind,some t,0⟩) []
  | createEmpty (kind : Kind) : Reacts sh [] (sh.addHolder ⟨kind,none,0⟩) []
  | copy (k t : Nat) (h : Holder) (present : sh.holders[k]? = some h) (task : h.task = some t) :
      Reacts sh [] ((sh.increment t).addHolder ⟨h.kind,some t,0⟩) []
  | move (k : Nat) (h : Holder) (present : sh.holders[k]? = some h) (idle : h.calls = 0) :
      Reacts sh [] ((sh.setHolder k {h with task := none}).addHolder ⟨h.kind,h.task,0⟩) []
  | copyAssign (destination source t : Nat) (old other : Holder)
      (present : sh.holders[source]? = some other) (task : other.task = some t)
      (target : sh.holders[destination]? = some old) (idle : old.calls = 0) :
      Reacts sh [] ((sh.increment t).setHolder destination {old with task := some t})
        (destroyed old.kind old.task)
  | moveAssign (destination source : Nat) (old other : Holder)
      (present : sh.holders[source]? = some other) (free : other.calls = 0)
      (target : (sh.setHolder source {other with task := none}).holders[destination]? = some old)
      (idle : old.calls = 0) :
      Reacts sh [] ((sh.setHolder source {other with task := none}).setHolder destination
        {old with task := other.task}) (destroyed old.kind old.task)
  | preset (k t : Nat) (h : Holder) (e : E) (present : sh.holders[k]? = some h)
      (task : h.task = some t) : Reacts sh [] (sh.setHolder k {h with calls := h.calls + 1})
        [.dependentTaskFailed (.preset k) t e]
  | doneWaiting (k t : Nat) (h : Holder) (e : Option E) (present : sh.holders[k]? = some h)
      (idle : h.calls = 0) (task : h.task = some t) :
      Reacts sh [] (sh.setHolder k {h with task := none, calls := 1})
        [WaitingTaskHolder.doneWaiting (.object k h.kind) t e]
  | destroy (k : Nat) (h : Holder) (present : sh.holders[k]? = some h) (idle : h.calls = 0) :
      Reacts sh [] (sh.setHolder k {h with task := none}) (destroyed h.kind h.task)
  | addCopy (l k t : Nat) (h : Holder) (present : sh.holders[k]? = some h) (task : h.task = some t) :
      Reacts sh [] (sh.increment t) [.add l t]
  | addMove (l k t : Nat) (h : Holder) (present : sh.holders[k]? = some h) (idle : h.calls = 0)
      (task : h.task = some t) : Reacts sh [] (sh.setHolder k {h with task := none}) [.add l t]
  | lists (list : Nat → WaitingList E) : Reacts sh [] {sh with list := list} []
  | pass (f g : Frame E) (passes : Passes f g) : Reacts sh [f] sh [g]
  | report (r : Reporter) (t : Nat) (e : E) (unset : sh.exceptionPtr t = none) :
      Reacts sh [.dependentTaskFailed r t e] {sh with reported := sh.reported ++ [(t,e)]} [.exchange r t e]
  | reportLate (r : Reporter) (t : Nat) (e : E) (set : sh.exceptionPtr t ≠ none) :
      Reacts sh [.dependentTaskFailed r t e] {sh with reported := sh.reported ++ [(t,e)]} [r.proceed t]
  | exchange (r : Reporter) (t : Nat) (e : E) : Reacts sh [.exchange r t e]
      {sh with exceptionPtr := Function.update sh.exceptionPtr t ((sh.exceptionPtr t).or (some e))}
      [r.proceed t]
  | returning (k : Nat) : Reacts sh [.returning k] (sh.finish k) []
  | release (owner : Owner) (t : Nat) (more : ((owner.finish sh).decrement t).refCount t ≠ 0) :
      Reacts sh [.release owner t] ((owner.finish sh).decrement t) []
  | submit (owner : Owner) (t : Nat) (last : ((owner.finish sh).decrement t).refCount t = 0) :
      Reacts sh [.release owner t] {(owner.finish sh).decrement t with
        submitted := ((owner.finish sh).decrement t).submitted ++ [t]} [owner.submission t]
  | execute (t : Nat) : Reacts sh [.execute t]
      {sh with executed := sh.executed ++ [(t,sh.exceptionPtr t)]} []

theorem idle_eq_some {sh : Shared E} {k : Nat} {h : Holder} :
    sh.idle k = some h ↔ sh.holders[k]? = some h ∧ h.calls = 0 := by
  simp [Shared.idle,Option.filter_eq_some_iff]

theorem call_reacts {sh sh' : Shared E} {c : Call E} {frames : List (Frame E)}
    (called : call sh c = some (sh',frames)) : Reacts sh [] sh' frames := by
  cases c with
  | create kind t =>
    simp only [call] at called
    split at called <;> cases called
    exact .create kind t ‹_›
  | createEmpty kind =>
    cases called
    exact .createEmpty kind
  | copy k =>
    simp only [call,Option.bind_eq_bind,Option.bind_eq_some_iff] at called
    obtain ⟨h,present,t,task,called⟩ := called
    cases called
    exact .copy k t h present task
  | move k =>
    simp only [call,Option.bind_eq_bind,Option.bind_eq_some_iff,idle_eq_some] at called
    obtain ⟨h,⟨present,idle⟩,called⟩ := called
    cases called
    exact .move k h present idle
  | copyAssign destination source =>
    simp only [call,Option.bind_eq_bind,Option.bind_eq_some_iff,idle_eq_some] at called
    obtain ⟨other,present,t,task,old,⟨target,idle⟩,called⟩ := called
    split at called <;> cases called
    exact .copyAssign destination source t old other present task target idle
  | moveAssign destination source =>
    simp only [call,Option.bind_eq_bind,Option.bind_eq_some_iff,idle_eq_some] at called
    obtain ⟨other,⟨present,free⟩,old,⟨target,idle⟩,called⟩ := called
    split at called <;> cases called
    exact .moveAssign destination source old other present free target idle
  | presetTaskAsFailed k e =>
    simp only [call,Option.bind_eq_bind,Option.bind_eq_some_iff] at called
    obtain ⟨h,present,called⟩ := called
    cases e with
    | none =>
      cases called
      exact .lists sh.list
    | some e =>
      simp only [Option.bind_eq_some_iff] at called
      obtain ⟨t,task,called⟩ := called
      cases called
      exact .preset k t h e present task
  | doneWaiting k e =>
    simp only [call,Option.bind_eq_bind,Option.bind_eq_some_iff,idle_eq_some] at called
    obtain ⟨h,⟨present,idle⟩,t,task,called⟩ := called
    cases called
    exact .doneWaiting k t h e present idle task
  | destroy k =>
    simp only [call,Option.bind_eq_bind,Option.bind_eq_some_iff,idle_eq_some] at called
    obtain ⟨h,⟨present,idle⟩,called⟩ := called
    cases called
    exact .destroy k h present idle
  | addCopy l k =>
    simp only [call,Option.bind_eq_bind,Option.bind_eq_some_iff] at called
    obtain ⟨h,present,t,task,called⟩ := called
    split at called <;> cases called
    exact .addCopy l k t h present task
  | addMove l k =>
    simp only [call,Option.bind_eq_bind,Option.bind_eq_some_iff,idle_eq_some] at called
    obtain ⟨h,⟨present,idle⟩,t,task,called⟩ := called
    split at called <;> cases called
    exact .addMove l k t h present idle task
  | listDoneWaiting l e | listReset l =>
    cases called
    exact .lists _

theorem react_reacts {sh : Shared E} {f : Frame E} {r : Reaction (Shared E) (Frame E)}
    (reacted : react sh f () = some r) : Reacts sh [f] r.shared (r.calls ++ r.spawned) := by
  unfold react at reacted
  split at reacted
  · cases reacted
    split
    · exact .report _ _ _ ‹_›
    · exact .reportLate _ _ _ ‹_›
  · cases reacted
    exact .exchange _ _ _
  · cases reacted
    exact .returning _
  · cases reacted
    split
    · exact .submit _ _ ‹_›
    · exact .release _ _ ‹_›
  · cases reacted
    split
    · exact .pass _ _ (.add _ _)
    · exact .pass _ _ (.addLate _ _ _)
  · split at reacted <;> cases reacted
    exact .pass _ _ (.node _ _)
  · cases reacted
    exact .pass _ _ (.announced _ _ _)
  · cases reacted
    exact .pass _ _ (.enqueued _)
  · cases reacted
    exact .execute _

/-- A step replaces frames of the bag, and leaves the others alone. -/
theorem next_reacts {s s' : State E} {a : Action E} (taken : next s a = some s') :
    ∃ before after, ∃ rest : Multiset (Frame E), Reacts s.shared before s'.shared after ∧
      s.bag = ↑before + rest ∧ s'.bag = ↑after + rest := by
  cases a with
  | call c =>
    obtain ⟨⟨sh,frames⟩,called,rfl⟩ := Option.map_eq_some_iff.mp taken
    exact ⟨[],frames,s.bag,call_reacts called,by simp,s.bag_spawns sh frames⟩
  | act thread =>
    obtain ⟨f,r,rest,reacted,shared,before,after,_⟩ := Pool.step_bag taken
    refine ⟨[f],r.calls ++ r.spawned,rest,?_,?_,after⟩
    · rw [shared]
      exact react_reacts reacted
    · rw [before]
      rfl

section Objects
variable {sh : Shared E} {k : Nat} {h : Holder}

theorem calls_present (present : sh.holders[k]? = some h) : sh.calls k = h.calls := by
  simp [Shared.calls,present]

theorem task_present (present : sh.holders[k]? = some h) : sh.task k = h.task := by
  simp [Shared.task,present]

theorem setHolder_present (present : sh.holders[k]? = some h) (new : Holder) (j : Nat) :
    (sh.setHolder k new).holders[j]? = if j = k then some new else sh.holders[j]? := by
  obtain ⟨inside,_⟩ := List.getElem?_eq_some_iff.mp present
  rw [Shared.setHolder,List.getElem?_set]
  by_cases here : j = k
  · rw [if_pos here,if_pos here.symm,if_pos inside]
  · rw [if_neg here,if_neg (Ne.symm here)]

theorem calls_setHolder (present : sh.holders[k]? = some h) (new : Holder) (j : Nat) :
    (sh.setHolder k new).calls j = if j = k then new.calls else sh.calls j := by
  rw [Shared.calls,setHolder_present present]
  split_ifs <;> rfl

theorem task_setHolder (present : sh.holders[k]? = some h) (new : Holder) (j : Nat) :
    (sh.setHolder k new).task j = if j = k then new.task else sh.task j := by
  rw [Shared.task,setHolder_present present]
  split_ifs <;> rfl

theorem calls_addHolder (unused : h.calls = 0) (j : Nat) : (sh.addHolder h).calls j = sh.calls j := by
  simp only [Shared.calls,Shared.addHolder,List.getElem?_append]
  split_ifs with inside
  · rfl
  · rw [List.getElem?_eq_none (Nat.le_of_not_lt inside),List.getElem?_singleton]
    split_ifs
    · exact unused
    · rfl

theorem task_addHolder (j : Nat) (used : 0 < sh.calls j) : (sh.addHolder h).task j = sh.task j := by
  have inside : j < sh.holders.length := by
    by_contra outside
    simp [Shared.calls,List.getElem?_eq_none (Nat.le_of_not_lt outside)] at used
  rw [Shared.task,Shared.addHolder,List.getElem?_append_left inside]
  rfl

theorem calls_finish (j : Nat) :
    (sh.finish k).calls j = if j = k then sh.calls k - 1 else sh.calls j := by
  unfold Shared.finish
  split
  · rename_i h present
    rw [calls_setHolder present,calls_present present]
  · rename_i absent
    split_ifs with here
    · simp [here,Shared.calls,absent]
    · rfl

theorem task_finish (j : Nat) : (sh.finish k).task j = sh.task j := by
  unfold Shared.finish
  split
  · rename_i h present
    rw [task_setHolder present]
    split_ifs with here
    · rw [here,task_present present]
    · rfl
  · rfl

end Objects

/-- Whoever reports through a holder does not own the task, but the holder does. -/
def Reporter.Holds (sh : Shared E) (t : Nat) : Reporter → Prop
  | .preset k => sh.task k = some t
  | .releasing _ => True

def Carries (sh : Shared E) : Frame E → Prop
  | .dependentTaskFailed r t _ => r.Holds sh t
  | .exchange r t e => (t,e) ∈ sh.reported ∧ r.Holds sh t
  | _ => True

/-- The member functions that use a holder are those its count says, and what they rely on holds. -/
structure Kept (sh : Shared E) (bag : Multiset (Frame E)) : Prop where
  calls : ∀ k, weigh (uses k) bag = sh.calls k
  carries : ∀ f ∈ bag, Carries sh f

section Steps
variable {sh sh' : Shared E} {before after : List (Frame E)} {rest : Multiset (Frame E)}

theorem uses_proceed (r : Reporter) (k t : Nat) (e : E) :
    uses k (r.proceed t : Frame E) = uses k (.exchange r t e) := by
  rcases r with j | (_ | _ | _) <;> rfl

theorem uses_destroyed (kind : Kind) (task : Option Nat) (k : Nat) :
    weigh (uses k) (↑(destroyed kind task : List (Frame E)) : Multiset (Frame E)) = 0 := by
  cases task <;> rfl

theorem uses_pass {f g : Frame E} (passes : Passes f g) (k : Nat) : uses k f = uses k g := by
  cases passes with
  | addLate | announced =>
    rw [uses_doneWaiting]
    rfl
  | _ => rfl

theorem uses_submission (owner : Owner) (k t : Nat) : uses k (owner.submission t : Frame E) = 0 := by
  rcases owner with ⟨_,_ | _⟩ | (_ | _) | _ <;> rfl

theorem calls_release (owner : Owner) (k t : Nat) : (owner.finish sh).calls k =
    sh.calls k - uses k (.release owner t : Frame E) := by
  cases owner with
  | object j kind =>
    rw [Owner.finish,calls_finish]
    simp only [uses]
    split_ifs with here
    · rw [here]
    · rfl
  | temporary kind | node => rfl

theorem calls_setTask {j : Nat} {h : Holder} (present : sh.holders[j]? = some h)
    (task : Option Nat) (k : Nat) : (sh.setHolder j {h with task := task}).calls k = sh.calls k := by
  rw [calls_setHolder present]
  split_ifs with here
  · rw [here,calls_present present]
  · rfl

theorem calls_react (reacts : Reacts sh before sh' after) {k : Nat}
    (enough : weigh (uses k) (↑before : Multiset (Frame E)) ≤ sh.calls k) :
    sh'.calls k + weigh (uses k) (↑before : Multiset (Frame E)) =
      sh.calls k + weigh (uses k) (↑after : Multiset (Frame E)) := by
  cases reacts with
  | create kind t fresh => rw [calls_addHolder ?_ k] <;> rfl
  | createEmpty kind =>
    rw [calls_addHolder ?_ k]
    rfl
  | copy j t h present task => rw [calls_addHolder ?_ k] <;> rfl
  | move j h present idle =>
    rw [calls_addHolder ?_ k,calls_setTask present]
    rfl
  | copyAssign destination source t old other present task target idle =>
    have present' : (sh.increment t).holders[destination]? = some old := target
    rw [uses_destroyed,calls_setTask present']
    rfl
  | moveAssign destination source old other present free target idle =>
    rw [uses_destroyed,calls_setTask target,calls_setTask present]
    rfl
  | preset j t h e present task =>
    rw [calls_setHolder present]
    simp only [weigh_coe,List.map_cons,List.map_nil,List.sum_cons,List.sum_nil,uses]
    split_ifs with here
    · rw [here,calls_present present]
      omega
    · omega
  | doneWaiting j t h e present idle task =>
    rw [calls_setHolder present]
    simp only [weigh_coe,List.map_cons,List.map_nil,List.sum_cons,List.sum_nil,uses_doneWaiting]
    simp only [uses]
    split_ifs with here
    · rw [here,calls_present present,idle]
      omega
    · rfl
  | destroy j h present idle =>
    rw [uses_destroyed,calls_setTask present]
    rfl
  | addCopy l j t h present task => rfl
  | addMove l j t h present idle task =>
    rw [calls_setTask present]
    rfl
  | lists list => rfl
  | pass f g passes => simp [uses_pass passes k]
  | report r t e unset => rcases r with j | (_ | _ | _) <;> rfl
  | reportLate r t e set => rcases r with j | (_ | _ | _) <;> rfl
  | exchange r t e => simp [Shared.calls,uses_proceed r k t e]
  | returning j =>
    rw [calls_finish]
    simp only [weigh_coe,List.map_cons,List.map_nil,List.sum_cons,List.sum_nil,uses] at enough ⊢
    split_ifs at enough ⊢ with here
    · rw [← here]
      omega
    · omega
  | release owner t more =>
    have finished : (owner.finish sh).calls k = sh.calls k - uses k (.release owner t : Frame E) :=
      calls_release owner k t
    simp only [weigh_coe,List.map_cons,List.map_nil,List.sum_cons,List.sum_nil] at enough ⊢
    simp only [Shared.calls,Shared.decrement] at enough finished ⊢
    omega
  | submit owner t last =>
    have finished : (owner.finish sh).calls k = sh.calls k - uses k (.release owner t : Frame E) :=
      calls_release owner k t
    simp only [weigh_coe,List.map_cons,List.map_nil,List.sum_cons,List.sum_nil,uses_submission] at enough ⊢
    simp only [Shared.calls,Shared.decrement] at enough finished ⊢
    omega
  | execute t => rfl

/-- A holder in use keeps its task. -/
theorem task_react (kept : Kept sh (↑before + rest)) (reacts : Reacts sh before sh' after) {k : Nat}
    (used : 0 < weigh (uses k) rest) : sh'.task k = sh.task k := by
  have inUse : 0 < sh.calls k := by
    rw [← kept.calls k,weigh_add]
    omega
  have apart {j : Nat} {h : Holder} (present : sh.holders[j]? = some h) (idle : h.calls = 0) : k ≠ j := by
    intro here
    rw [here,calls_present present,idle] at inUse
    exact Nat.lt_irrefl 0 inUse
  cases reacts with
  | create kind t fresh => exact task_addHolder k inUse
  | createEmpty kind => exact task_addHolder k inUse
  | copy j t h present task => exact task_addHolder k inUse
  | move j h present idle =>
    have other := apart present idle
    rw [task_addHolder k (by rw [calls_setHolder present,if_neg other]; exact inUse),
      task_setHolder present,if_neg other]
  | copyAssign destination source t old other present task target idle =>
    have present' : (sh.increment t).holders[destination]? = some old := target
    rw [task_setHolder present',if_neg (apart target idle)]
    rfl
  | moveAssign destination source old other present free target idle =>
    have elsewhere := apart present free
    have here : k ≠ destination := by
      intro here
      rw [setHolder_present present] at target
      split_ifs at target with there
      · exact elsewhere (here.trans there)
      · exact apart target idle here
    rw [task_setHolder target,if_neg here,task_setHolder present,if_neg elsewhere]
  | preset j t h e present task =>
    rw [task_setHolder present]
    split_ifs with here
    · rw [here,task_present present]
    · rfl
  | doneWaiting j t h e present idle task => rw [task_setHolder present,if_neg (apart present idle)]
  | destroy j h present idle => rw [task_setHolder present,if_neg (apart present idle)]
  | addMove l j t h present idle task => rw [task_setHolder present,if_neg (apart present idle)]
  | returning j => exact task_finish k
  | release owner t more | submit owner t last =>
    cases owner with
    | object j kind => exact task_finish k
    | temporary kind | node => rfl
  | _ => rfl

theorem reported_react (reacts : Reacts sh before sh' after) {x : Nat × E} (reported : x ∈ sh.reported) :
    x ∈ sh'.reported := by
  have finish (owner : Owner) : (owner.finish sh).reported = sh.reported := by
    cases owner with
    | object k kind =>
      simp only [Owner.finish,Shared.finish]
      split <;> rfl
    | temporary kind | node => rfl
  cases reacts with
  | report r t e | reportLate r t e => exact List.mem_append_left _ reported
  | returning k =>
    have same := finish (.object k .plain)
    rwa [← same] at reported
  | release owner t more | submit owner t last => rwa [← finish owner] at reported
  | _ => exact reported

theorem Reporter.Holds.keep {r : Reporter} {t : Nat} (holds : r.Holds sh t)
    (task : ∀ k, 0 < uses k (r.proceed t : Frame E) → sh'.task k = sh.task k) : r.Holds sh' t := by
  cases r with
  | preset k => exact (task k (by simp [Reporter.proceed,uses])).trans holds
  | releasing owner => trivial

theorem carries_doneWaiting (owner : Owner) (t : Nat) (e : Option E) : Carries sh (doneWaiting owner t e) := by
  cases e <;> trivial

theorem carries_destroyed (kind : Kind) (task : Option Nat) {f : Frame E}
    (member : f ∈ (destroyed kind task : List (Frame E))) : Carries sh f := by
  cases task with
  | none => nomatch member
  | some t =>
    obtain rfl := List.mem_singleton.mp member
    trivial

theorem carries_proceed (r : Reporter) (t : Nat) : Carries sh (r.proceed t : Frame E) := by
  cases r <;> trivial

theorem carries_pass {f g : Frame E} (passes : Passes f g) : Carries sh g := by
  cases passes with
  | addLate | announced => exact carries_doneWaiting _ _ _
  | _ => trivial

theorem carries_submission (owner : Owner) (t : Nat) : Carries sh (owner.submission t : Frame E) := by
  rcases owner with ⟨_,_ | _⟩ | (_ | _) | _ <;> trivial

theorem carries_react (kept : Kept sh (↑before + rest)) (reacts : Reacts sh before sh' after) :
    ∀ f ∈ (↑after + rest : Multiset (Frame E)), Carries sh' f := by
  intro f member
  rcases Multiset.mem_add.mp member with new | other
  · have own (g : Frame E) (acts : g ∈ before) : Carries sh g :=
      kept.carries g (Multiset.mem_add.mpr (Or.inl acts))
    cases reacts with
    | copyAssign | moveAssign | destroy => exact carries_destroyed _ _ new
    | preset k t h e present task =>
      obtain rfl := List.mem_singleton.mp new
      change (sh.setHolder k _).task k = some t
      rw [task_setHolder present,if_pos rfl]
      exact task
    | doneWaiting k t h e present idle task =>
      obtain rfl := List.mem_singleton.mp new
      exact carries_doneWaiting _ _ _
    | pass g h passes =>
      obtain rfl := List.mem_singleton.mp new
      exact carries_pass passes
    | report r t e unset =>
      obtain rfl := List.mem_singleton.mp new
      have holds : r.Holds sh t := own _ (List.mem_singleton.mpr rfl)
      exact ⟨List.mem_append_right _ (List.mem_singleton.mpr rfl),holds⟩
    | reportLate r t | exchange r t =>
      obtain rfl := List.mem_singleton.mp new
      exact carries_proceed r t
    | submit owner t last =>
      obtain rfl := List.mem_singleton.mp new
      exact carries_submission owner t
    | addCopy | addMove =>
      obtain rfl := List.mem_singleton.mp new
      trivial
    | _ => nomatch new
  · have before := kept.carries f (Multiset.mem_add.mpr (Or.inr other))
    have task (k : Nat) (used : 0 < uses k f) : sh'.task k = sh.task k :=
      task_react kept reacts (weigh_pos other used)
    cases f with
    | dependentTaskFailed r t e =>
      have holds : r.Holds sh t := before
      apply holds.keep
      intro k used
      rw [uses_proceed r k t e] at used
      refine task k (lt_of_lt_of_eq used ?_)
      rcases r with j | (_ | _ | _) <;> rfl
    | exchange r t e =>
      refine ⟨reported_react reacts before.1,before.2.keep fun k used => task k ?_⟩
      rwa [uses_proceed r k t e] at used
    | _ => trivial

theorem Kept.react (kept : Kept sh (↑before + rest)) (reacts : Reacts sh before sh' after) :
    Kept sh' (↑after + rest) := by
  refine ⟨fun k => ?_,carries_react kept reacts⟩
  have calls := kept.calls k
  rw [weigh_add] at calls ⊢
  have change := calls_react reacts (k := k) (by omega)
  omega

end Steps
end ToyMtFramework.WaitingTaskHolder
