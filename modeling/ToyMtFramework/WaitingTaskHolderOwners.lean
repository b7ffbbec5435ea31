import ToyMtFramework.Core.OwnedTask
import ToyMtFramework.WaitingTaskHolderCalls

/-! Every waiting task is a task owned by counted references: each step of the holders, lists and
nodes has one of the effects that an owned task knows. -/
namespace ToyMtFramework.WaitingTaskHolder
open Activities Transition

variable {E : Type}

def view (sh : Shared E) (bag : Multiset (Frame E)) (t : Nat) : OwnedTask E where
  created := decide (t ∈ sh.created)
  owners := owners sh bag t
  count := sh.refCount t
  submitted := sh.submitted.count t
  running := weigh (runs t) bag
  executed := (sh.executed.filter (fun x => x.1 = t)).map Prod.snd
  reported := (sh.reported.filter (fun x => x.1 = t)).map Prod.snd
  storing := weigh (stores t) bag
  error := sh.exceptionPtr t

def Shared.held (sh : Shared E) (t : Nat) : Nat := sh.holders.countP fun h => h.task = some t

theorem countP_present {α : Type} (p : α → Bool) {xs : List α} {k : Nat} {x : α} (y : α)
    (present : xs[k]? = some x) : (xs.set k y).countP p + (if p x then 1 else 0) =
      xs.countP p + if p y then 1 else 0 := by
  obtain ⟨inside,at_k⟩ := List.getElem?_eq_some_iff.mp present
  rw [List.countP_set inside,at_k]
  have counted : (if p x then 1 else 0) ≤ xs.countP p := by
    rw [← at_k]
    exact List.boole_getElem_le_countP inside
  omega

section Owners
variable {sh sh' : Shared E} {before after : List (Frame E)} {rest : Multiset (Frame E)}

theorem held_setHolder {k : Nat} {h : Holder} (present : sh.holders[k]? = some h) (new : Holder) (t : Nat) :
    (sh.setHolder k new).held t + (if h.task = some t then 1 else 0) =
      sh.held t + if new.task = some t then 1 else 0 := by
  have counted := countP_present (fun h : Holder => decide (h.task = some t)) new present
  simpa [Shared.held,Shared.setHolder] using counted

theorem held_addHolder (h : Holder) (t : Nat) :
    (sh.addHolder h).held t = sh.held t + if h.task = some t then 1 else 0 := by
  simp [Shared.held,Shared.addHolder,List.countP_append,List.countP_singleton]

theorem held_finish (k t : Nat) : (sh.finish k).held t = sh.held t := by
  unfold Shared.finish
  split
  · rename_i h present
    have counted := held_setHolder present {h with calls := h.calls - 1} t
    simp only at counted
    omega
  · rfl

theorem held_release (owner : Owner) (t : Nat) : (owner.finish sh).held t = sh.held t := by
  cases owner with
  | object k kind => exact held_finish k t
  | temporary kind | node => rfl

theorem owned_by_holder {k t : Nat} (held : sh.task k = some t) (bag : Multiset (Frame E)) :
    0 < owners sh bag t := by
  obtain ⟨h,present,task⟩ := Option.bind_eq_some_iff.mp held
  have counted : 0 < sh.held t :=
    List.countP_pos_iff.mpr ⟨h,List.mem_of_getElem? present,by simpa using task⟩
  exact Nat.add_pos_left counted _

theorem owned_by_frame {f : Frame E} {t : Nat} {bag : Multiset (Frame E)} (member : f ∈ bag)
    (owned : 0 < owns t f) : 0 < owners sh bag t :=
  Nat.add_pos_right _ (weigh_pos member owned)

/-- Whoever reports a failure of a task keeps it from being submitted. -/
theorem owned_by_reporter {r : Reporter} {t : Nat} {f : Frame E} {bag : Multiset (Frame E)}
    (holds : r.Holds sh t) (member : f ∈ bag) (owned : ∀ o, r = .releasing o → 0 < owns t f) :
    0 < owners sh bag t := by
  cases r with
  | preset k => exact owned_by_holder holds bag
  | releasing o => exact owned_by_frame member (owned o rfl)

theorem Kept.reporter {bag : Multiset (Frame E)} (kept : Kept sh bag) (r : Reporter) (t : Nat) (e : E)
    (member : .dependentTaskFailed r t e ∈ bag) : 0 < owners sh bag t := by
  have holds : r.Holds sh t := kept.carries _ member
  apply owned_by_reporter holds member
  rintro o rfl
  simp [owns]

theorem Kept.storing {bag : Multiset (Frame E)} (kept : Kept sh bag) {t : Nat}
    (storing : 0 < weigh (stores t) bag) : 0 < owners sh bag t := by
  obtain ⟨f,member,busy⟩ := (weigh_pos_iff _ bag).mp storing
  have carries := kept.carries f member
  cases f with
  | exchange r u e =>
    have same : t = u := by
      by_contra other
      simp [stores,other] at busy
    rw [← same] at carries member
    apply owned_by_reporter carries.2 member
    rintro o rfl
    simp [owns]
  | _ => nomatch busy

def Shared.record (sh : Shared E) (t : Nat) : Bool × Nat × Option E × List E × Nat × List (Option E) :=
  (decide (t ∈ sh.created),sh.refCount t,sh.exceptionPtr t,
    (sh.reported.filter (fun x => x.1 = t)).map Prod.snd,sh.submitted.count t,
    (sh.executed.filter (fun x => x.1 = t)).map Prod.snd)

theorem record_finish (k t : Nat) : (sh.finish k).record t = sh.record t := by
  unfold Shared.finish
  split <;> rfl

theorem refCount_release (owner : Owner) (t : Nat) : (owner.finish sh).refCount t = sh.refCount t := by
  cases owner with
  | object k kind =>
    simp only [Owner.finish,Shared.finish]
    split <;> rfl
  | temporary kind | node => rfl

theorem record_release (owner : Owner) (t u : Nat) :
    ((owner.finish sh).decrement u).record t = (sh.decrement u).record t := by
  cases owner with
  | object k kind =>
    simp only [Owner.finish,Shared.finish]
    split <;> rfl
  | temporary kind | node => rfl

theorem record_increment {t u : Nat} (other : t ≠ u) : (sh.increment u).record t = sh.record t := by
  simp only [Shared.record,Shared.increment,Function.update_of_ne other]
  rfl

theorem record_decrement {t u : Nat} (other : t ≠ u) : (sh.decrement u).record t = sh.record t := by
  simp only [Shared.record,Shared.decrement,Function.update_of_ne other]
  rfl

theorem owns_proceed (r : Reporter) (t u : Nat) (e : E) :
    owns t (r.proceed u : Frame E) = owns t (.exchange r u e) := by
  cases r <;> rfl

theorem runs_proceed (r : Reporter) (t u : Nat) : runs t (r.proceed u : Frame E) = 0 := by
  cases r <;> rfl

theorem stores_proceed (r : Reporter) (t u : Nat) : stores t (r.proceed u : Frame E) = 0 := by
  cases r <;> rfl

theorem owns_submission (owner : Owner) (t u : Nat) : owns t (owner.submission u : Frame E) = 0 := by
  rcases owner with ⟨_,_ | _⟩ | (_ | _) | _ <;> rfl

theorem runs_submission (owner : Owner) (t u : Nat) :
    runs t (owner.submission u : Frame E) = if t = u then 1 else 0 := by
  rcases owner with ⟨_,_ | _⟩ | (_ | _) | _ <;> rfl

theorem stores_submission (owner : Owner) (t u : Nat) : stores t (owner.submission u : Frame E) = 0 := by
  rcases owner with ⟨_,_ | _⟩ | (_ | _) | _ <;> rfl

/-- A frame that passes its task on goes on owning it, or goes on to run it. -/
theorem pass_weights {f g : Frame E} (passes : Passes f g) (t : Nat) :
    owns t f = owns t g ∧ runs t f = runs t g ∧ stores t f = stores t g := by
  cases passes with
  | addLate | announced =>
    rw [owns_doneWaiting,runs_doneWaiting,stores_doneWaiting]
    exact ⟨rfl,rfl,rfl⟩
  | _ => exact ⟨rfl,rfl,rfl⟩

theorem destroyed_weights (kind : Kind) (task : Option Nat) (t : Nat) :
    weigh (owns t) (↑(destroyed kind task : List (Frame E)) : Multiset (Frame E)) =
      (if task = some t then 1 else 0) ∧
    weigh (runs t) (↑(destroyed kind task : List (Frame E)) : Multiset (Frame E)) = 0 ∧
    weigh (stores t) (↑(destroyed kind task : List (Frame E)) : Multiset (Frame E)) = 0 := by
  cases task with
  | none => simp [destroyed]
  | some u => simp [destroyed,owns,runs,stores,eq_comm]

section Views
variable {bag bag' : Multiset (Frame E)} {t u : Nat}

theorem effect_idle (record : sh'.record t = sh.record t) (same : owners sh' bag' t = owners sh bag t)
    (running : weigh (runs t) bag' = weigh (runs t) bag)
    (storing : weigh (stores t) bag' = weigh (stores t) bag) :
    OwnedTask.Effect refCountLimit (view sh bag t) (view sh' bag' t) := by
  have unchanged : view sh' bag' t = view sh bag t := by
    simp only [Shared.record,Prod.mk.injEq] at record
    obtain ⟨created,count,error,reported,submitted,executed⟩ := record
    simp only [view,same,running,storing,created,count,error,reported,submitted,executed]
  rw [unchanged]
  exact .idle

theorem effect_acquire (record : sh'.record t = (sh.increment u).record t)
    (acquired : owners sh' bag' t = owners sh bag t + if t = u then 1 else 0)
    (running : weigh (runs t) bag' = weigh (runs t) bag)
    (storing : weigh (stores t) bag' = weigh (stores t) bag) (owned : 0 < owners sh bag u) :
    OwnedTask.Effect refCountLimit (view sh bag t) (view sh' bag' t) := by
  by_cases same : t = u
  · rw [if_pos same] at acquired
    subst same
    simp only [Shared.record,Shared.increment,Function.update_self,Prod.mk.injEq] at record
    obtain ⟨created,count,error,reported,submitted,executed⟩ := record
    have incremented : view sh' bag' t = (view sh bag t).incremented refCountLimit := by
      simp only [view,acquired,running,storing,created,count,error,reported,submitted,executed]
      rfl
    rw [incremented]
    exact .acquire owned
  · rw [if_neg same] at acquired
    exact effect_idle (record.trans (record_increment same)) acquired running storing

theorem effect_drop (more : decrementRefCount (sh.refCount u) ≠ 0)
    (record : sh'.record t = (sh.decrement u).record t)
    (dropped : owners sh' bag' t + (if t = u then 1 else 0) = owners sh bag t)
    (running : weigh (runs t) bag' = weigh (runs t) bag)
    (storing : weigh (stores t) bag' = weigh (stores t) bag) :
    OwnedTask.Effect refCountLimit (view sh bag t) (view sh' bag' t) := by
  by_cases same : t = u
  · rw [if_pos same] at dropped
    subst same
    simp only [Shared.record,Shared.decrement,Function.update_self,Prod.mk.injEq] at record
    obtain ⟨created,count,error,reported,submitted,executed⟩ := record
    have decremented : view sh' bag' t = (view sh bag t).decremented refCountLimit := by
      simp only [view,← dropped,running,storing,created,count,error,reported,submitted,executed]
      rfl
    rw [decremented]
    exact .drop (Nat.lt_of_lt_of_eq (Nat.succ_pos _) dropped) more
  · rw [if_neg same] at dropped
    exact effect_idle (record.trans (record_decrement same)) dropped running storing

theorem effect_submit (last : decrementRefCount (sh.refCount u) = 0)
    (record : sh'.record t = {sh.decrement u with submitted := sh.submitted ++ [u]}.record t)
    (dropped : owners sh' bag' t + (if t = u then 1 else 0) = owners sh bag t)
    (running : weigh (runs t) bag' = weigh (runs t) bag + if t = u then 1 else 0)
    (storing : weigh (stores t) bag' = weigh (stores t) bag) :
    OwnedTask.Effect refCountLimit (view sh bag t) (view sh' bag' t) := by
  by_cases same : t = u
  · rw [if_pos same] at dropped running
    subst same
    simp only [Shared.record,Shared.decrement,Function.update_self,List.count_append,List.count_singleton_self,
      Prod.mk.injEq] at record
    obtain ⟨created,count,error,reported,submitted,executed⟩ := record
    have decremented : view sh' bag' t = {(view sh bag t).decremented refCountLimit with
        submitted := (view sh bag t).submitted + 1, running := (view sh bag t).running + 1} := by
      simp only [view,← dropped,running,storing,created,count,error,reported,submitted,executed]
      rfl
    rw [decremented]
    exact .submit (Nat.lt_of_lt_of_eq (Nat.succ_pos _) dropped) last
  · rw [if_neg same] at dropped running
    refine effect_idle (record.trans ?_) dropped running storing
    have uncounted : (sh.submitted ++ [u]).count t = sh.submitted.count t := by
      simp [List.count_append,Ne.symm same]
    simp only [Shared.record,Shared.decrement,Function.update_of_ne same,uncounted]
    rfl

theorem record_report (u : Nat) (e : E) {t : Nat} (other : t ≠ u) :
    Shared.record {sh with reported := sh.reported ++ [(u,e)]} t = sh.record t := by
  simp [Shared.record,List.filter_append,Ne.symm other]

theorem view_report (e : E) (same : owners sh bag' t = owners sh bag t)
    (running : weigh (runs t) bag' = weigh (runs t) bag) :
    view {sh with reported := sh.reported ++ [(t,e)]} bag' t = {view sh bag t with
      reported := (view sh bag t).reported ++ [e], storing := weigh (stores t) bag'} := by
  have owned : owners {sh with reported := sh.reported ++ [(t,e)]} bag' t = owners sh bag t := same
  simp [view,List.filter_append,owned,running]

theorem effect_report (e : E) (owned : 0 < owners sh bag u) (unset : sh.exceptionPtr u = none)
    (same : owners sh bag' t = owners sh bag t) (running : weigh (runs t) bag' = weigh (runs t) bag)
    (storing : weigh (stores t) bag' = weigh (stores t) bag + if t = u then 1 else 0) :
    OwnedTask.Effect refCountLimit (view sh bag t)
      (view {sh with reported := sh.reported ++ [(u,e)]} bag' t) := by
  by_cases here : t = u
  · subst here
    rw [view_report e same running,storing,if_pos rfl]
    exact .report owned e unset
  · rw [if_neg here] at storing
    exact effect_idle (record_report u e here) same running storing

theorem effect_reportLate (e : E) (owned : 0 < owners sh bag u) (set : sh.exceptionPtr u ≠ none)
    (same : owners sh bag' t = owners sh bag t) (running : weigh (runs t) bag' = weigh (runs t) bag)
    (storing : weigh (stores t) bag' = weigh (stores t) bag) :
    OwnedTask.Effect refCountLimit (view sh bag t)
      (view {sh with reported := sh.reported ++ [(u,e)]} bag' t) := by
  by_cases here : t = u
  · subst here
    rw [view_report e same running,storing]
    exact .reportLate owned e set
  · exact effect_idle (record_report u e here) same running storing

theorem effect_store (e : E) (owned : 0 < owners sh bag u) (known : (u,e) ∈ sh.reported)
    (same : owners sh bag' t = owners sh bag t) (running : weigh (runs t) bag' = weigh (runs t) bag)
    (storing : weigh (stores t) bag = weigh (stores t) bag' + if t = u then 1 else 0) :
    OwnedTask.Effect refCountLimit (view sh bag t) (view {sh with
      exceptionPtr := Function.update sh.exceptionPtr u ((sh.exceptionPtr u).or (some e))} bag' t) := by
  by_cases here : t = u
  · subst here
    rw [if_pos rfl] at storing
    have stored : view {sh with
        exceptionPtr := Function.update sh.exceptionPtr t ((sh.exceptionPtr t).or (some e))} bag' t =
        {view sh bag t with error := (view sh bag t).error.or (some e), storing := (view sh bag t).storing - 1} := by
      have owned' : owners {sh with
          exceptionPtr := Function.update sh.exceptionPtr t ((sh.exceptionPtr t).or (some e))} bag' t =
          owners sh bag t := same
      simp only [view,owned',running,storing,Function.update_self,Nat.add_sub_cancel]
    rw [stored]
    refine .store owned e ?_ (Nat.lt_of_lt_of_eq (Nat.succ_pos _) storing.symm)
    exact List.mem_map.mpr ⟨(t,e),List.mem_filter.mpr ⟨known,by simp⟩,rfl⟩
  · rw [if_neg here] at storing
    refine effect_idle ?_ same running storing.symm
    simp only [Shared.record,Function.update_of_ne here]

theorem effect_execute (same : owners sh bag' t = owners sh bag t)
    (running : weigh (runs t) bag = weigh (runs t) bag' + if t = u then 1 else 0)
    (storing : weigh (stores t) bag' = weigh (stores t) bag) :
    OwnedTask.Effect refCountLimit (view sh bag t)
      (view {sh with executed := sh.executed ++ [(u,sh.exceptionPtr u)]} bag' t) := by
  by_cases here : t = u
  · subst here
    rw [if_pos rfl] at running
    have executed : view {sh with executed := sh.executed ++ [(t,sh.exceptionPtr t)]} bag' t =
        {view sh bag t with
          running := (view sh bag t).running - 1, executed := (view sh bag t).executed ++ [sh.exceptionPtr t]} := by
      have owned' : owners {sh with executed := sh.executed ++ [(t,sh.exceptionPtr t)]} bag' t =
          owners sh bag t := same
      simp [view,List.filter_append,owned',running,storing]
    rw [executed]
    exact .execute (Nat.lt_of_lt_of_eq (Nat.succ_pos _) running.symm)
  · rw [if_neg here] at running
    refine effect_idle ?_ same running.symm storing
    simp [Shared.record,List.filter_append,Ne.symm here]

end Views

section Effects
variable {t : Nat}

theorem owners_eq (bag : Multiset (Frame E)) (t : Nat) : owners sh bag t = sh.held t + weigh (owns t) bag := rfl

theorem effect_create {bag : Multiset (Frame E)} (kind : Kind) (u : Nat) (fresh : u ∉ sh.created) (t : Nat) :
    OwnedTask.Effect refCountLimit (view sh bag t) (view
      (({sh with created := sh.created ++ [u]}.increment u).addHolder ⟨kind,some u,0⟩) bag t) := by
  have added : (({sh with created := sh.created ++ [u]}.increment u).addHolder ⟨kind,some u,0⟩).held t =
      sh.held t + if some u = some t then 1 else 0 := held_addHolder _ t
  by_cases same : t = u
  · subst same
    rw [if_pos rfl] at added
    have created : view (({sh with created := sh.created ++ [t]}.increment t).addHolder ⟨kind,some t,0⟩) bag t =
        {(view sh bag t).incremented refCountLimit with created := true} := by
      ext1
      · simp [view,Shared.addHolder,Shared.increment]
      · simp only [view,owners_eq,added,OwnedTask.incremented]
        omega
      · simp [view,Shared.addHolder,Shared.increment,OwnedTask.incremented,incrementRefCount]
      all_goals rfl
    rw [created]
    exact .create (by simpa [view] using fresh)
  · have other : ¬some u = some t := fun same' => same (Option.some.inj same').symm
    rw [if_neg other] at added
    refine effect_idle ?_ ?_ rfl rfl
    · simp [Shared.record,Shared.addHolder,Shared.increment,same]
    · rw [owners_eq,owners_eq,added]
      rfl

theorem Reacts.effect (kept : Kept sh (↑before + rest)) (reacts : Reacts sh before sh' after) (t : Nat) :
    OwnedTask.Effect refCountLimit (view sh (↑before + rest) t) (view sh' (↑after + rest) t) := by
  cases reacts with
  | createEmpty kind =>
    refine effect_idle rfl ?_ rfl rfl
    rw [owners_eq,owners_eq,held_addHolder]
    rfl
  | copy k u h present task =>
    refine effect_acquire (u := u) rfl ?_ rfl rfl (owned_by_holder ((task_present present).trans task) _)
    have held : ((sh.increment u).addHolder ⟨h.kind,some u,0⟩).held t =
        sh.held t + if some u = some t then 1 else 0 := held_addHolder _ t
    rw [owners_eq,owners_eq]
    grind
  | move k h present idle =>
    refine effect_idle rfl ?_ rfl rfl
    have moved := held_setHolder present {h with task := none} t
    rw [owners_eq,owners_eq,held_addHolder]
    grind
  | copyAssign destination source u old other present task target idle =>
    obtain ⟨gone,running,storing⟩ := destroyed_weights (E := E) old.kind old.task t
    refine effect_acquire (u := u) rfl ?_ ?_ ?_ (owned_by_holder ((task_present present).trans task) _)
    · have present' : (sh.increment u).holders[destination]? = some old := target
      have assigned := held_setHolder present' {old with task := some u} t
      have counted : (sh.increment u).held t = sh.held t := rfl
      rw [owners_eq,owners_eq,weigh_add,weigh_nil,gone]
      grind
    · rw [weigh_add,weigh_add,running]
      rfl
    · rw [weigh_add,weigh_add,storing]
      rfl
  | moveAssign destination source old other present free target idle =>
    obtain ⟨gone,running,storing⟩ := destroyed_weights (E := E) old.kind old.task t
    refine effect_idle rfl ?_ ?_ ?_
    · have moved := held_setHolder present {other with task := none} t
      have assigned := held_setHolder target {old with task := other.task} t
      rw [owners_eq,owners_eq,weigh_add,weigh_nil,gone]
      grind
    · rw [weigh_add,weigh_add,running]
      rfl
    · rw [weigh_add,weigh_add,storing]
      rfl
  | create kind u fresh => exact effect_create kind u fresh t
  | preset k u h e present task =>
    refine effect_idle rfl ?_ ?_ ?_
    · have same := held_setHolder present {h with calls := h.calls + 1} t
      rw [owners_eq,owners_eq,weigh_one,weigh_nil,owns]
      grind
    · simp [runs]
    · simp [stores]
  | doneWaiting k u h e present idle task =>
    have released := held_setHolder present {h with task := none, calls := 1} t
    refine effect_idle rfl ?_ ?_ ?_
    · rw [owners_eq,owners_eq,weigh_one,weigh_nil,owns_doneWaiting]
      grind
    · simp
    · simp
  | destroy k h present idle =>
    obtain ⟨gone,running,storing⟩ := destroyed_weights (E := E) h.kind h.task t
    refine effect_idle rfl ?_ ?_ ?_
    · have released := held_setHolder present {h with task := none} t
      rw [owners_eq,owners_eq,weigh_add,weigh_nil,gone]
      grind
    · rw [weigh_add,weigh_add,running]
      rfl
    · rw [weigh_add,weigh_add,storing]
      rfl
  | addCopy l k u h present task =>
    refine effect_acquire (u := u) rfl ?_ ?_ ?_ (owned_by_holder ((task_present present).trans task) _)
    · have counted : (sh.increment u).held t = sh.held t := rfl
      rw [owners_eq,owners_eq,counted,weigh_one,weigh_nil,owns]
      omega
    · simp [runs]
    · simp [stores]
  | addMove l k u h present idle task =>
    refine effect_idle rfl ?_ ?_ ?_
    · have moved := held_setHolder present {h with task := none} t
      rw [owners_eq,owners_eq,weigh_one,weigh_nil,owns]
      grind
    · simp [runs]
    · simp [stores]
  | lists list => exact effect_idle rfl rfl rfl rfl
  | pass f g passes =>
    obtain ⟨owned,running,storing⟩ := pass_weights passes t
    refine effect_idle rfl ?_ ?_ ?_
    · simp [owners_eq,owned]
    · simp [running]
    · simp [storing]
  | returning k =>
    refine effect_idle (record_finish k t) ?_ ?_ ?_
    · simp [owners_eq,held_finish,owns]
    · simp [runs]
    · simp [stores]
  | release owner u more =>
    simp only [Shared.decrement,Function.update_self,refCount_release] at more
    refine effect_drop more (record_release owner t u) ?_ ?_ ?_
    · have held : ((owner.finish sh).decrement u).held t = sh.held t := held_release owner t
      rw [owners_eq,owners_eq,held,weigh_one,weigh_nil,owns]
      omega
    · simp [runs]
    · simp [stores]
  | submit owner u last =>
    simp only [Shared.decrement,Function.update_self,refCount_release] at last
    refine effect_submit last ?_ ?_ ?_ ?_
    · cases owner with
      | object k kind =>
        simp only [Owner.finish,Shared.finish]
        split <;> rfl
      | temporary kind | node => rfl
    · have held : Shared.held {(owner.finish sh).decrement u with
          submitted := ((owner.finish sh).decrement u).submitted ++ [u]} t = sh.held t := held_release owner t
      rw [owners_eq,owners_eq,held,weigh_one,weigh_one,owns_submission,owns]
      omega
    · rw [weigh_one,weigh_one,runs_submission]
      simp only [runs]
      omega
    · rw [weigh_one,weigh_one,stores_submission]
      rfl
  | report r u e unset =>
    refine effect_report e (kept.reporter r u e (by simp)) unset ?_ ?_ ?_
    · rw [owners_eq,owners_eq,weigh_one,weigh_one]
      cases r <;> rfl
    · rw [weigh_one,weigh_one]
      rfl
    · rw [weigh_one,weigh_one]
      simp only [stores]
      omega
  | reportLate r u e set =>
    refine effect_reportLate e (kept.reporter r u e (by simp)) set ?_ ?_ ?_
    · rw [owners_eq,owners_eq,weigh_one,weigh_one,owns_proceed r t u e]
      cases r <;> rfl
    · rw [weigh_one,weigh_one,runs_proceed]
      rfl
    · rw [weigh_one,weigh_one,stores_proceed]
      rfl
  | exchange r u e =>
    have member : Frame.exchange r u e ∈ (↑[Frame.exchange r u e] + rest : Multiset (Frame E)) := by simp
    have owned := kept.storing (t := u) (weigh_pos member (by simp [stores]))
    refine effect_store e owned (kept.carries _ member).1 ?_ ?_ ?_
    · rw [owners_eq,owners_eq,weigh_one,weigh_one,owns_proceed r t u e]
    · rw [weigh_one,weigh_one,runs_proceed]
      rfl
    · rw [weigh_one,weigh_one,stores_proceed]
      simp only [stores]
      omega
  | execute u =>
    refine effect_execute ?_ ?_ ?_
    · rw [owners_eq,owners_eq,weigh_one,weigh_nil]
      simp [owns]
    · rw [weigh_one,weigh_nil]
      exact Nat.add_comm _ _
    · rw [weigh_one,weigh_nil]
      simp [stores]

end Effects
end Owners

structure Managed (s : State E) : Prop where
  kept : Kept s.shared s.bag
  sound : ∀ t, (view s.shared s.bag t).Sound refCountLimit

theorem Managed.initial : Managed (initial E) := by
  refine ⟨⟨fun k => rfl,fun f member => absurd member (Multiset.notMem_zero f)⟩,fun t => ?_⟩
  exact OwnedTask.Sound.initial (Nat.two_pow_pos 32)

theorem next_effect {s s' : State E} {a : Action E} (kept : Kept s.shared s.bag)
    (taken : next s a = some s') : Kept s'.shared s'.bag ∧ ∀ t,
      OwnedTask.Effect refCountLimit (view s.shared s.bag t) (view s'.shared s'.bag t) := by
  obtain ⟨before,after,rest,reacts,bag,bag'⟩ := next_reacts taken
  rw [bag] at kept
  rw [bag,bag']
  exact ⟨kept.react reacts,reacts.effect kept⟩

theorem Managed.next {s s' : State E} {a : Action E} (managed : Managed s) (few : FewOwners s a)
    (taken : next s a = some s') : Managed s' := by
  obtain ⟨kept,effect⟩ := next_effect managed.kept taken
  exact ⟨kept,fun t => (managed.sound t).effect (effect t) (few s' taken t) kept.storing⟩

theorem count_filter_map (xs : List (Nat × Option E)) (t : Nat) :
    ((xs.filter (fun x => x.1 = t)).map Prod.snd).length = (xs.map Prod.fst).count t := by
  induction xs with
  | nil => rfl
  | cons x xs ih =>
    by_cases same : x.1 = t
    · simp [same,← ih]
    · simp [same,← ih]

/-- While no task has `2 ^ 32` owners: the counter counts holders and nodes, the loss of the last
of them submits the task, and the task is executed with the first exception stored. -/
theorem task_managed (s : State E) (run : Reaches next FewOwners (initial E) s) (t : Nat) :
    s.shared.refCount t = owners s.shared s.bag t ∧
    s.shared.submitted.count t =
      (if t ∈ s.shared.created ∧ owners s.shared s.bag t = 0 then 1 else 0) ∧
    (s.shared.executed.map Prod.fst).count t + weigh (runs t) s.bag = s.shared.submitted.count t ∧
    (∀ error, (t,error) ∈ s.shared.executed → owners s.shared s.bag t = 0 ∧
      (error ≠ none ↔ ∃ e, (t,e) ∈ s.shared.reported) ∧
      ∀ e, error = some e → (t,e) ∈ s.shared.reported) ∧
    ∀ a s', FewOwners s a → next s a = some s' →
      s'.shared.submitted.count t = s.shared.submitted.count t +
        (if owners s.shared s.bag t = 1 ∧ owners s'.shared s'.bag t = 0 then 1 else 0) ∧
      ∀ e, s.shared.exceptionPtr t = some e → s'.shared.exceptionPtr t = some e := by
  have managed := run.invariant (fun _ _ _ managed few taken => managed.next few taken) Managed.initial
  have sound := managed.sound t
  have reported (e : E) : (t,e) ∈ s.shared.reported ↔ e ∈ (view s.shared s.bag t).reported := by
    simp [view]
  refine ⟨sound.count,?_,?_,fun error member => ?_,fun a s' few taken => ?_⟩
  · simpa [view] using sound.submitted
  · rw [← count_filter_map]
    exact sound.executed
  · have executed : error ∈ (view s.shared s.bag t).executed :=
      List.mem_map.mpr ⟨(t,error),List.mem_filter.mpr ⟨member,by simp⟩,rfl⟩
    have unowned : (view s.shared s.bag t).owners = 0 := by
      by_contra owned
      rw [(sound.unexecuted (Nat.pos_of_ne_zero owned)).1] at executed
      nomatch executed
    have seen := sound.seen error executed
    simp only [reported]
    refine ⟨unowned,⟨fun set => ?_,fun ⟨e,told⟩ unset => ?_⟩,fun e set => sound.known e (seen ▸ set)⟩
    · obtain ⟨e,stored⟩ := Option.ne_none_iff_exists'.mp set
      exact ⟨e,sound.known e (seen ▸ stored)⟩
    · have storing := sound.unset (seen ▸ unset) (List.ne_nil_of_mem told)
      have owned := sound.storing storing
      omega
  · have effect := (next_effect managed.kept taken).2 t
    exact ⟨effect.submits ((managed.next few taken).sound t),fun e stored => effect.error stored⟩

def FewObjects (s : State E) (a : Action E) : Prop :=
  ∀ s' ∈ next s a, s'.shared.holders.length + s'.threads.flatten.length < refCountLimit

instance (s : State E) (a : Action E) : Decidable (FewObjects s a) :=
  inferInstanceAs (Decidable (∀ s' ∈ next s a,
    s'.shared.holders.length + s'.threads.flatten.length < refCountLimit))

theorem FewObjects.owners {s : State E} {a : Action E} (few : FewObjects s a) : FewOwners s a := by
  intro s' taken t
  have light : weigh (owns t) s'.bag ≤ weigh (fun _ => 1) s'.bag := by
    apply weigh_le
    intro f
    unfold owns
    split
    all_goals first | omega | split_ifs <;> omega
  have held : s'.shared.holders.countP (fun h => h.task = some t) ≤ s'.shared.holders.length :=
    List.countP_le_length
  have frames : weigh (fun _ : Frame E => 1) s'.bag = s'.threads.flatten.length := by
    rw [Pool.bag,weigh_coe,List.map_const',List.sum_replicate_nat,Nat.mul_one]
  have small := few s' taken
  simp only [WaitingTaskHolder.owners]
  omega

/-- A holder and its copy: the copy reports 7 and is moved into list 0, which fails with 8. -/
def presetAndList : List (Action Nat) :=
  [.call (.create .plain 0),.call (.copy 0),.call (.presetTaskAsFailed 1 (some 7)),.act 0,.act 0,.act 0,
    .call (.addMove 0 1),.act 1,.call (.listDoneWaiting 0 (some 8)),.call (.doneWaiting 0 none),.act 3,
    .act 2,.act 2,.act 2,.act 2,.act 4]

theorem task_managed_presetAndList : ∃ s, execute next (initial Nat) presetAndList = some s ∧
    s.shared.executed = [(0,some 7)] ∧ s.shared.reported = [(0,7),(0,8)] ∧
    s.shared.refCount 0 = owners s.shared s.bag 0 ∧ ∀ error, (0,error) ∈ s.shared.executed →
      (error ≠ none ↔ ∃ e, (0,e) ∈ s.shared.reported) := by
  have ran : ((execute next (initial Nat) presetAndList).map fun s =>
      decide (s.shared.executed = [(0,some 7)] ∧ s.shared.reported = [(0,7),(0,8)])) = some true := by
    decide +kernel
  have few : Admitted next FewObjects (initial Nat) presetAndList := by
    decide +kernel
  obtain ⟨s,reached,records⟩ := Option.map_eq_some_iff.mp ran
  obtain ⟨executed,reported⟩ := of_decide_eq_true records
  have run := (execute_reaches presetAndList few reached).weaken fun _ _ few => few.owners
  have managed := task_managed s run 0
  exact ⟨s,reached,executed,reported,managed.1,fun error member => (managed.2.2.2.1 error member).2.1⟩

def copies (n : Nat) : State Unit where
  shared := {(initial Unit).shared with
    holders := List.replicate (n + 1) ⟨.plain,some 0,0⟩
    refCount := Function.update (fun _ => 0) 0 ((n + 1) % refCountLimit)
    created := [0] }
  threads := []

theorem copies_reached (n : Nat) : Reachable next (initial Unit) (copies n) := by
  induction n with
  | zero => exact execute_reachable [.call (.create .plain 0)] rfl
  | succ n ih =>
    apply ih.step (.call (.copy 0)) trivial
    have first : (copies n).shared.holders[0]? = some ⟨.plain,some 0,0⟩ := by
      simp [copies]
    have counted : incrementRefCount ((n + 1) % refCountLimit) = (n + 1 + 1) % refCountLimit :=
      Nat.mod_add_mod _ _ _
    simp only [next,call,first]
    simp [copies,Shared.increment,Shared.addHolder,counted,← List.replicate_succ']

theorem copies_owners (n : Nat) : owners (copies n).shared (copies n).bag 0 = n + 1 := by
  simp [owners,copies,Pool.bag,List.countP_replicate]

/-- With `2 ^ 32` holders the counter is zero. -/
theorem refCount_wraps : ¬∀ (s : State Unit) (t : Nat), Reachable next (initial Unit) s →
    s.shared.refCount t = owners s.shared s.bag t := by
  intro always
  have counted := always (copies (refCountLimit - 1)) 0 (copies_reached _)
  have positive : 0 < refCountLimit := Nat.two_pow_pos 32
  have wrapped : (copies (refCountLimit - 1)).shared.refCount 0 = 0 := by
    simp only [copies,Function.update_self,Nat.sub_add_cancel positive,Nat.mod_self]
  rw [wrapped,copies_owners] at counted
  exact absurd counted (Nat.succ_ne_zero _).symm

end ToyMtFramework.WaitingTaskHolder
