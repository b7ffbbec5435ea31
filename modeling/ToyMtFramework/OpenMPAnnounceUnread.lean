import ToyMtFramework.OpenMPAnnounceReset

/-! From event to event. When no module of an event is at work any more, nothing of it is left that could
start one or that the lists have to announce; it stays so until the reset of the stream has come to its end. -/
namespace ToyMtFramework.OpenMP.Announce
open Activities Transition
open ToyMtFramework.Schedule.Loop (ResetStep)

variable {L D E : Type} [DecidableEq L] [DecidableEq D] {job : Job L D E} {sh : ListShared L D E}
  {f : ListFrame L D E} {bag : Multiset (ListFrame L D E)} {stream k : Nat} {w target : ModuleWrapper L D}
  {t : TaskId L D} {resets : Nat → Option (List (ModuleWrapper L D) × ResetStep)}

/-- The event of the stream has come to its end: none of its modules is at work, and no path waits. -/
structure Ended (sh : ListShared L D E) (bag : Multiset (ListFrame L D E)) (stream : Nat) : Prop where
  idle : ∀ f ∈ bag, f.atWork stream = false
  unneeded : ∀ w t, (w,t) ∈ sh.heads → runs stream t = false
  finished : ∀ f ∈ bag, f.onPath stream = false
  released : ∀ w t, (w,t) ∈ sh.heads → w.stream = stream → ofPath t = false

omit [DecidableEq L] [DecidableEq D] in
theorem awaits_tasks (awaits : f.awaits = some (k,target)) :
    ∃ v found next, f.stage = .act (.regionEnd k v target found next) := by
  obtain ⟨region,stage⟩ := f
  cases stage with
  | act stage =>
    cases stage with
    | regionEnd j v wanted found next =>
      cases awaits
      exact ⟨v,found,next,rfl⟩
    | _ => cases awaits
  | _ => cases awaits

/-- The module that waits in a region of an `Event::get` is at work. -/
theorem Ended.unserved (ended : Ended sh bag stream) (accounted : Accounted sh.base (sh.view bag))
    (own : target.stream = stream) : ¬Serves bag k target f := by
  rintro ⟨_,e,member,awaits⟩
  obtain ⟨v,found,next,waits⟩ := awaits_tasks awaits
  have same : target.stream = v.stream := act_bound accounted member waits
  exact idle_held (w := v) (ended.idle e member) (by simp [ListFrame.tasks,waits]) (same.symm.trans own)

theorem unworked (idle : ∀ f ∈ bag, f.atWork stream = false) (own : w.stream = stream) :
    weigh (works w) (sh.view bag) = 0 := by
  by_contra working
  obtain ⟨h,seen,working⟩ := (weigh_pos_iff _ _).mp (Nat.pos_of_ne_zero working)
  rcases mem_view.mp seen with ⟨f,member,view⟩ | ⟨x,_,rfl⟩
  · rcases works_view view working with held | queued
    · exact idle_held (idle f member) held own
    · exact idle_pending (idle f member) (queued_pending queued) own
  · exact absurd working (Nat.lt_irrefl 0)

theorem unowned (accounted : Accounted sh.base (sh.view bag)) (idle : ∀ f ∈ bag, f.atWork stream = false)
    (unneeded : ∀ v, (v,.runModule w) ∉ sh.heads) (own : w.stream = stream) :
    sh.base.refCount (.runModule w) = 0 := by
  rw [accounted.owners]
  by_contra owned
  obtain ⟨h,seen,owned⟩ := (weigh_pos_iff _ _).mp (Nat.pos_of_ne_zero owned)
  rcases mem_view.mp seen with ⟨f,member,view⟩ | ⟨⟨v,t⟩,listed,rfl⟩
  · exact idle_held (idle f member) (owns_view view owned) own
  · obtain rfl : .runModule w = t := counted owned
    exact unneeded v listed

/-- What waits in a list then would be a task of an `Event::get`. -/
theorem Ended.listed (ended : Ended sh bag stream) (accounted : Accounted sh.base (sh.view bag))
    (listed : (w,t) ∈ sh.heads) (own : w.stream = stream) : ∃ j, t = .doneTask j w := by
  have bound : Bound (node (E := E) w t) := listed_bound accounted listed
  cases t with
  | outside =>
    have path := ended.released w _ listed own
    cases path
  | runModule v =>
    have same : w.stream = v.stream := bound
    have other := ended.unneeded w _ listed
    simp [runs,← same,own] at other
  | doneTask j v =>
    obtain rfl : v = w := bound
    exact ⟨j,rfl⟩

theorem Orderly.unlisted (orderly : Orderly sh bag resets) (ended : Ended sh bag stream)
    (listed : (w,t) ∈ sh.heads) : w.stream ≠ stream := by
  intro own
  have accounted := orderly.accounted
  have served {j : Nat} {g : ListFrame L D E} : ¬Serves bag j w g := ended.unserved accounted own
  cases started : sh.base.workStarted w with
  | false =>
    obtain ⟨j,rfl⟩ := ended.listed accounted listed own
    obtain ⟨g,_,_,serves⟩ := orderly.callers w j w listed started
    exact served serves
  | true =>
    have work := accounted.work w
    have unneeded (v : ModuleWrapper L D) : (v,.runModule w) ∉ sh.heads := by
      intro listed
      have other := ended.unneeded v _ listed
      simp [runs,own] at other
    rw [unworked ended.idle own,unowned accounted ended.idle unneeded own,started,Bool.toNat_true] at work
    have announced : sh.base.outcomes w ≠ [] := by
      intro silent
      rw [silent] at work
      cases work
    have filled : sh.nodes w ≠ [] := List.ne_nil_of_mem (mem_nodes.mpr listed)
    obtain ⟨g,member,_,announces | serves⟩ := orderly.takers w (accounted.told w announced) filled
    · exact idle_pending (ended.idle g member) (by simp [ListFrame.pending,announces]) own
    · obtain ⟨first,last⟩ := Option.isSome_iff_exists.mp (List.getLast?_isSome.mpr filled)
      obtain ⟨j,rfl⟩ := ended.listed accounted (mem_nodes.mp (List.mem_of_getLast? last)) own
      exact served (serves j w last)

theorem Orderly.settles (orderly : Orderly sh bag resets) (ended : Ended sh bag stream) :
    Settled sh bag stream where
  idle := ended.idle
  unasked := by
    intro f member w t asks own
    have bound : Bound (node (E := E) w t) := asked_bound orderly.accounted member asks
    cases t with
    | outside =>
      have path := ended.finished f member
      rcases asks_stage asks with stage | stage <;> simp [ListFrame.onPath,stage,ofPath,own] at path
    | runModule v =>
      have same : w.stream = v.stream := bound
      refine idle_held (w := v) (ended.idle f member) ?_ (same.symm.trans own)
      rcases asks_stage asks with stage | stage <;> simp [ListFrame.tasks,stage]
    | doneTask j v =>
      obtain rfl : v = w := bound
      exact ended.unserved orderly.accounted own (orderly.asks f member v j v asks)
  unlisted _ _ listed := orderly.unlisted ended listed
  started := by
    intro f member w calls own
    by_contra unstarted
    obtain ⟨t,inside⟩ := List.exists_mem_of_ne_nil _ (orderly.calls f member w calls (by simpa using unstarted))
    exact orderly.unlisted ended (mem_nodes.mp inside) own

section Resets
variable {ws : List (ModuleWrapper L D)}

/-- A list is reset when nothing waits in it and no thread is inside `announce` of it. -/
theorem Orderly.unread (orderly : Orderly sh bag resets) (first : resets w.stream = some (w :: ws,.waitingTasks)) :
    (∀ f ∈ bag, ¬f.Announces w) ∧ sh.nodes w = [] := by
  have resetting := orderly.between _ _ _ first
  have unstarted := resetting.unstarted rfl w rfl
  constructor
  · intro f member announces
    have called : f.Calls w ∨ f.pending = some w := by
      obtain ⟨region,stage⟩ := f
      cases stage with
      | announce v after | walk v nodes after | look v nodes after =>
        obtain rfl : v = w := announces
        cases after with
        | true => exact Or.inl rfl
        | false => exact Or.inr rfl
      | _ => exact announces.elim
    rcases called with calls | pending
    · rw [resetting.settled.started f member w calls rfl] at unstarted
      cases unstarted
    · exact idle_pending (resetting.settled.idle f member) pending rfl
  · by_contra filled
    obtain ⟨t,inside⟩ := List.exists_mem_of_ne_nil _ filled
    exact resetting.settled.unlisted w t (mem_nodes.mp inside) rfl

omit [DecidableEq L] [DecidableEq D] in
/-- A reset of another wrapper does not touch the one that has begun. -/
theorem ahead_elsewhere {now : Option (List (ModuleWrapper L D) × ResetStep)} (here : resets stream = now)
    (different : ∀ vs, now ≠ some (w :: vs,.waitingTasks))
    (ahead : ∃ vs, resets w.stream = some (w :: vs,.waitingTasks))
    (new : Option (List (ModuleWrapper L D) × ResetStep)) :
    ∃ vs, Function.update resets stream new w.stream = some (w :: vs,.waitingTasks) := by
  obtain ⟨vs,last⟩ := ahead
  have apart : w.stream ≠ stream := by
    rintro rfl
    exact different vs (here.symm.trans last)
  exact ⟨vs,by rw [Function.update_of_ne apart,last]⟩

theorem Orderly.resetWrapper (orderly : Orderly sh bag resets) (first : resets stream = some (w :: ws,.wrapper)) :
    Orderly {sh with base := resetWrapper sh.base w} bag
      (Function.update resets stream (some (w :: ws,.workStarted))) := by
  have only : ∃ cache put, Announce.resetWrapper sh.base w = {sh.base with cache, put} := by
    unfold Announce.resetWrapper
    split
    · exact ⟨_,_,rfl⟩
    · exact ⟨_,_,rfl⟩
  obtain ⟨cache,put,same⟩ := only
  have settled {stream : Nat} (settled : Settled sh bag stream) :
      Settled {sh with base := {sh.base with cache, put}} bag stream :=
    ⟨settled.idle,settled.unasked,settled.unlisted,settled.started⟩
  have accounted := orderly.accounted
  rw [same]
  constructor
  · exact ⟨accounted.owners,accounted.work,accounted.told,accounted.bound⟩
  · exact orderly.told
  · intro v told
    exact (orderly.announced v told).imp_right fun ahead => ahead_elsewhere first (by simp) ahead _
  · exact orderly.asks
  · exact orderly.callers
  · exact orderly.calls
  · exact orderly.takers
  · intro other vs step next
    by_cases here : other = stream
    · subst here
      rw [Function.update_self] at next
      cases next
      have before := orderly.between _ _ _ first
      exact ⟨settled before.settled,before.own,fun last => absurd last (by simp)⟩
    · rw [Function.update_of_ne here] at next
      have before := orderly.between _ _ _ next
      exact ⟨settled before.settled,before.own,before.unstarted⟩

theorem Orderly.resetWorkStarted (orderly : Orderly sh bag resets)
    (first : resets stream = some (w :: ws,.workStarted)) (uncalled : ∀ f ∈ bag, ¬f.Calls w) :
    Orderly {sh with base := resetWorkStarted sh.base w} bag
      (Function.update resets stream (some (w :: ws,.waitingTasks))) := by
  have resetting := orderly.between _ _ _ first
  have own : w.stream = stream := resetting.own w List.mem_cons_self
  have accounted := orderly.accounted
  have apart (v : ModuleWrapper L D) (other : v ≠ w) :
      (Announce.resetWorkStarted sh.base w).workStarted v = sh.base.workStarted v :=
    Function.update_of_ne other _ _
  have settled {other : Nat} (settled : Settled sh bag other) :
      Settled {sh with base := Announce.resetWorkStarted sh.base w} bag other := by
    refine ⟨settled.idle,settled.unasked,settled.unlisted,fun f member v calls inside => ?_⟩
    have different : v ≠ w := by
      rintro rfl
      exact uncalled f member calls
    exact (apart v different).trans (settled.started f member v calls inside)
  constructor
  · refine ⟨accounted.owners,fun v => ?_,fun v announced => ?_,accounted.bound⟩
    · have seen : ListShared.view {sh with base := Announce.resetWorkStarted sh.base w} bag = sh.view bag := rfl
      rw [seen]
      by_cases same : v = w
      · subst same
        have unneeded (u : ModuleWrapper L D) : (u,.runModule v) ∉ sh.heads := by
          intro listed
          have bound : u.stream = v.stream := listed_bound accounted listed
          exact resetting.settled.unlisted u _ listed (bound.trans own)
        have idle : weigh (works v) (sh.view bag) = 0 := unworked resetting.settled.idle own
        have gone := unowned accounted resetting.settled.idle unneeded own
        simp [Announce.resetWorkStarted,idle,gone]
      · simpa [Announce.resetWorkStarted,same] using accounted.work v
    · have other : v ≠ w := by
        rintro rfl
        simp [Announce.resetWorkStarted] at announced
      exact accounted.told v (by simpa [Announce.resetWorkStarted,other] using announced)
  · exact orderly.told
  · intro v told
    by_cases same : v = w
    · subst same
      exact Or.inr ⟨ws,by rw [own,Function.update_self]⟩
    · exact (orderly.announced v told).imp (apart v same).trans fun ahead => ahead_elsewhere first (by simp) ahead _
  · exact orderly.asks
  · intro v k target listed unstarted
    have different : v ≠ w := by
      rintro rfl
      exact resetting.settled.unlisted v _ listed own
    exact orderly.callers v k target listed ((apart v different).symm.trans unstarted)
  · intro f member v calls unstarted
    have different : v ≠ w := by
      rintro rfl
      exact uncalled f member calls
    exact orderly.calls f member v calls ((apart v different).symm.trans unstarted)
  · exact orderly.takers
  · intro other vs step next
    by_cases here : other = stream
    · subst here
      rw [Function.update_self] at next
      cases next
      refine ⟨settled resetting.settled,resetting.own,fun _ v head => ?_⟩
      obtain rfl := Option.some.inj head
      exact Function.update_self _ _ _
    · rw [Function.update_of_ne here] at next
      have before := orderly.between _ _ _ next
      refine ⟨settled before.settled,before.own,fun last v head => ?_⟩
      have different : v ≠ w := by
        rintro rfl
        exact here ((before.own v (List.mem_of_mem_head? head)).symm.trans own)
      exact (apart v different).trans (before.unstarted last v head)

theorem Orderly.resetWaitingTasks (orderly : Orderly sh bag resets)
    (first : resets stream = some (w :: ws,.waitingTasks)) :
    Orderly {sh with base := resetWaitingTasks sh.base w} bag
      (Function.update resets stream (some (ws,.wrapper))) := by
  have resetting := orderly.between _ _ _ first
  have own : w.stream = stream := resetting.own w List.mem_cons_self
  have next : resets w.stream = some (w :: ws,.waitingTasks) := by rw [own,first]
  have unread := orderly.unread next
  have apart (v : ModuleWrapper L D) (other : v ≠ w) :
      (Announce.resetWaitingTasks sh.base w).list v = sh.base.list v :=
    Function.update_of_ne other _ _
  have different {v : ModuleWrapper L D}
      (told : ((Announce.resetWaitingTasks sh.base w).list v).waiting = false) : v ≠ w := by
    rintro rfl
    simp [Announce.resetWaitingTasks] at told
  have settled {other : Nat} (settled : Settled sh bag other) :
      Settled {sh with base := Announce.resetWaitingTasks sh.base w} bag other :=
    ⟨settled.idle,settled.unasked,settled.unlisted,settled.started⟩
  have accounted := orderly.accounted
  constructor
  · refine ⟨accounted.owners,accounted.work,fun v announced => ?_,accounted.bound⟩
    have work := accounted.work v
    have other : v ≠ w := by
      rintro rfl
      rw [resetting.unstarted rfl v rfl] at work
      have some : 0 < (sh.base.outcomes v).length := List.length_pos_of_ne_nil announced
      rw [Bool.toNat_false] at work
      omega
    exact (congrArg _ (apart v other)).trans (accounted.told v announced)
  · intro f member v announces
    have other : v ≠ w := by
      rintro rfl
      exact unread.1 f member announces
    exact (congrArg _ (apart v other)).trans (orderly.told f member v announces)
  · intro v told
    have other := different told
    have before := orderly.announced v ((congrArg _ (apart v other)).symm.trans told)
    exact before.imp_right fun ahead => ahead_elsewhere first (by simp [Ne.symm other]) ahead _
  · exact orderly.asks
  · exact orderly.callers
  · exact orderly.calls
  · intro v told filled
    exact orderly.takers v ((congrArg _ (apart v (different told))).symm.trans told) filled
  · intro other vs step next
    by_cases here : other = stream
    · subst here
      rw [Function.update_self] at next
      cases next
      exact ⟨settled resetting.settled,fun v member => resetting.own v (List.mem_cons_of_mem w member),
        fun last => absurd last (by simp)⟩
    · rw [Function.update_of_ne here] at next
      have before := orderly.between _ _ _ next
      exact ⟨settled before.settled,before.own,before.unstarted⟩

theorem Orderly.reset (orderly : Orderly sh bag resets) {x : List (ModuleWrapper L D) × ResetStep}
    (first : resets stream = some x)
    (uncalled : ∀ w ws, x = (w :: ws,.workStarted) → ∀ f ∈ bag, ¬f.Calls w) :
    Orderly {sh with base := (resetNext sh.base x).1} bag
      (Function.update resets stream (resetNext sh.base x).2) := by
  obtain ⟨ws,step⟩ := x
  cases ws with
  | nil =>
    refine ⟨orderly.accounted,orderly.told,fun v told => ?_,orderly.asks,orderly.callers,orderly.calls,
      orderly.takers,fun other vs step next => ?_⟩
    · exact (orderly.announced v told).imp_right fun ahead => ahead_elsewhere first (by simp) ahead _
    · by_cases here : other = stream
      · subst here
        rw [Function.update_self] at next
        cases next
      · rw [Function.update_of_ne here] at next
        exact orderly.between other vs step next
  | cons w ws =>
    cases step with
    | wrapper => exact orderly.resetWrapper first
    | workStarted => exact orderly.resetWorkStarted first (uncalled w ws rfl)
    | waitingTasks => exact orderly.resetWaitingTasks first

end Resets

section Run

theorem wrappers_stream (member : w ∈ wrappers job stream) : w.stream = stream := by
  rcases List.mem_append.mp member with producer | filter
  · obtain ⟨_,_,rfl⟩ := List.mem_map.mp producer
    rfl
  · obtain ⟨_,_,rfl⟩ := List.mem_map.mp filter
    rfl

theorem Orderly.callback (orderly : Orderly sh bag resets) (free : resets stream = none)
    (ended : Ended sh bag stream) :
    Orderly sh bag (Function.update resets stream (some (wrappers job stream,.wrapper))) where
  accounted := orderly.accounted
  told := orderly.told
  announced := fun v told =>
    (orderly.announced v told).imp_right fun ahead => ahead_elsewhere free (by simp) ahead _
  asks := orderly.asks
  callers := orderly.callers
  calls := orderly.calls
  takers := orderly.takers
  between := by
    intro other vs step next
    by_cases here : other = stream
    · subst here
      rw [Function.update_self] at next
      cases next
      exact ⟨orderly.settles ended,fun v => wrappers_stream,fun last => absurd last (by simp)⟩
    · rw [Function.update_of_ne here] at next
      exact orderly.between other vs step next

theorem Orderly.request (orderly : Orderly sh bag resets) (region : Option Nat) (free : resets w.stream = none) :
    Orderly (sh.hold .outside) (⟨region,.act (.doWorkAsync w .outside)⟩ ::ₘ bag) resets := by
  have among : ∀ e ∈ bag, e ∈ (⟨region,.act (.doWorkAsync w .outside)⟩ : ListFrame L D E) ::ₘ bag :=
    fun e => Multiset.mem_cons_of_mem
  constructor
  · rw [view_cons]
    exact orderly.accounted.request w region
  · intro f member v announces
    rcases Multiset.mem_cons.mp member with rfl | old
    · exact announces.elim
    · exact orderly.told f old v announces
  · exact orderly.announced
  · intro f member v k target asks
    rcases Multiset.mem_cons.mp member with rfl | old
    · cases asks
    · exact (orderly.asks f old v k target asks).mono among
  · intro v k target listed unstarted
    obtain ⟨f,member,calls,serves⟩ := orderly.callers v k target listed unstarted
    exact ⟨f,among f member,calls,serves.mono among⟩
  · intro f member v calls unstarted
    rcases Multiset.mem_cons.mp member with rfl | old
    · exact calls.elim
    · exact orderly.calls f old v calls unstarted
  · intro v told filled
    obtain ⟨f,member,takes,serves⟩ := orderly.takers v told filled
    exact ⟨f,among f member,takes,serves.imp_right fun serves k target last => (serves k target last).mono among⟩
  · intro stream ws step ahead
    have resetting := orderly.between stream ws step ahead
    have apart : w.stream ≠ stream := by
      rintro rfl
      rw [free] at ahead
      cases ahead
    refine ⟨⟨fun f member => ?_,fun f member v t asks => ?_,resetting.settled.unlisted,fun f member v calls => ?_⟩,
      resetting.own,resetting.unstarted⟩
    · rcases Multiset.mem_cons.mp member with rfl | old
      · rfl
      · exact resetting.settled.idle f old
    · rcases Multiset.mem_cons.mp member with rfl | old
      · cases asks
        exact apart
      · exact resetting.settled.unasked f old v t asks
    · rcases Multiset.mem_cons.mp member with rfl | old
      · exact calls.elim
      · exact resetting.settled.started f old v calls

omit [DecidableEq L] [DecidableEq D] in
theorem calls_calling (calls : f.Calls w) : f.calling = some w := by
  obtain ⟨region,stage⟩ := f
  cases stage with
  | act stage =>
    cases stage with
    | startWork v => exact congrArg some calls
    | _ => exact calls.elim
  | recheck v => exact congrArg some calls
  | announce v after | walk v nodes after | look v nodes after =>
    cases after with
    | true => exact congrArg some calls
    | false => exact calls.elim
  | add => exact calls.elim

omit [DecidableEq L] [DecidableEq D] in
theorem Events.ended {s : Events L D E} (unhurried : s.Unhurried (.callback stream))
    (free : s.pathsDone stream = true) : Ended s.modules.shared s.modules.bag stream := by
  obtain ⟨frames,heads⟩ := Bool.and_eq_true_iff.mp free
  refine ⟨unhurried.1,fun w t => unhurried.2 (w,t),fun f member => ?_,fun w t listed own => ?_⟩
  · simpa using List.all_eq_true.mp frames f (Multiset.mem_coe.mp member)
  · simpa [own] using List.all_eq_true.mp heads (w,t) listed

theorem Events.next_orderly {s t : Events L D E} {a : EventAction L D}
    (orderly : Orderly s.modules.shared s.modules.bag s.resets) (unhurried : s.Unhurried a)
    (taken : s.next job a = some t) : Orderly t.modules.shared t.modules.bag t.resets := by
  cases a with
  | act thread choice =>
    obtain ⟨modules,moved,rfl⟩ := Option.map_eq_some_iff.mp taken
    obtain ⟨_,stepped⟩ := Option.ite_none_right_eq_some.mp moved
    obtain ⟨stepped,idle⟩ := Queues.step_idle stepped
    obtain ⟨f,r,rest,reacted,shared,before,after,top⟩ := Pool.step_bag stepped
    have waits : ∀ x, f.awaits = some x → ∀ g ∈ s.modules.bag, g.region ≠ some x.1 :=
      fun x awaits => regions_idle awaits (idle f top)
    rw [before] at orderly waits
    rw [shared,after]
    exact orderly.after (react_moves reacted) waits
  | request w region =>
    obtain ⟨free,requested⟩ := Option.ite_none_right_eq_some.mp taken
    obtain ⟨modules,asked,rfl⟩ := Option.map_eq_some_iff.mp requested
    obtain ⟨_,same⟩ := Option.ite_none_right_eq_some.mp asked
    cases same
    rw [Pool.bag_spawn]
    exact orderly.request region (Option.isNone_iff_eq_none.mp free)
  | callback stream =>
    obtain ⟨free,same⟩ := Option.ite_none_right_eq_some.mp taken
    cases same
    obtain ⟨free,done⟩ := Bool.and_eq_true_iff.mp free
    exact orderly.callback (Option.isNone_iff_eq_none.mp free) (Events.ended unhurried done)
  | reset stream =>
    obtain ⟨x,first,rfl⟩ := Option.map_eq_some_iff.mp taken
    refine orderly.reset first fun w ws same f member calls => ?_
    have ahead : s.unstarting stream = some w := by rw [Events.unstarting,first,same]
    exact unhurried w ahead f member (calls_calling calls)

theorem Events.orderly {s : Events L D E} (run : Reaches (Events.next job) Events.Unhurried (Events.initial job) s) :
    Orderly s.modules.shared s.modules.bag s.resets := by
  have preserved (s : Events L D E) (a : EventAction L D) (t : Events L D E)
      (orderly : Orderly s.modules.shared s.modules.bag s.resets) (unhurried : s.Unhurried a)
      (taken : s.next job a = some t) : Orderly t.modules.shared t.modules.bag t.resets :=
    Events.next_orderly orderly unhurried taken
  have start : Orderly (Events.initial (E := E) job).modules.shared (Events.initial (E := E) job).modules.bag
      (Events.initial (E := E) job).resets := by
    refine ⟨⟨fun _ => rfl,fun _ => rfl,fun _ announced => absurd rfl announced,?_⟩,?_,?_,?_,?_,?_,?_,?_⟩
    · exact fun f member => absurd member (Multiset.notMem_zero f)
    · exact fun f member => absurd member (Multiset.notMem_zero f)
    · intro w told
      cases told
    · exact fun f member => absurd member (Multiset.notMem_zero f)
    · intro w k target listed
      cases listed
    · exact fun f member => absurd member (Multiset.notMem_zero f)
    · intro w told
      cases told
    · intro stream ws step ahead
      cases ahead
      refine ⟨⟨?_,?_,?_,?_⟩,fun v => wrappers_stream,fun last => absurd last (by simp)⟩
      · exact fun f member => absurd member (Multiset.notMem_zero f)
      · exact fun f member => absurd member (Multiset.notMem_zero f)
      · intro w t listed
        cases listed
      · exact fun f member => absurd member (Multiset.notMem_zero f)
  exact run.invariant preserved start

/-- No list of a module is reset while a thread is inside `announce` of it, and no thread is inside
`announce` of a list from its reset until the module has finished again. -/
theorem reset_unread {s : Events L D E} (run : Reaches (Events.next job) Events.Unhurried (Events.initial job) s)
    (w : ModuleWrapper L D) :
    (∀ ws, s.resets w.stream = some (w :: ws,.waitingTasks) →
      (∀ f ∈ s.modules.bag, ¬f.Announces w) ∧ s.modules.shared.nodes w = []) ∧
    ((s.modules.shared.base.list w).waiting = true → ∀ f ∈ s.modules.bag, ¬f.Announces w) := by
  have orderly := Events.orderly run
  refine ⟨fun ws first => orderly.unread first,fun waiting f member announces => ?_⟩
  have told := orderly.told f member w announces
  rw [waiting] at told
  cases told

end Run
end ToyMtFramework.OpenMP.Announce
