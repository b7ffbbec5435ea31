import ToyMtFramework.OpenMPAnnounceSteps

/-! The lists of the OpenMP framework at their resets. While a module is at work its event goes on; when none
is, each task that waits in a list has been taken out, for a region that an `Event::get` waits in belongs to a
module at work. So from the end of an event until the next one nothing of the stream waits or is announced. -/
namespace ToyMtFramework.OpenMP.Announce
open Activities Transition
open ToyMtFramework.Schedule.Loop (ResetStep)

variable {L D E : Type}

/-- A call of `get` with region `k` waits for the product, and the frame is in its region. -/
def Serves (bag : Multiset (ListFrame L D E)) (k : Nat) (target : ModuleWrapper L D) (f : ListFrame L D E) : Prop :=
  f.region = some k ∧ ∃ e ∈ bag, e.awaits = some (k,target)

/-- Nothing of the event of the stream is left but calls of `doWorkAsync` on modules that have been started. -/
structure Settled (sh : ListShared L D E) (bag : Multiset (ListFrame L D E)) (stream : Nat) : Prop where
  idle : ∀ f ∈ bag, f.atWork stream = false
  unasked : ∀ f ∈ bag, ∀ w t, f.asks = some (w,t) → w.stream ≠ stream
  unlisted : ∀ w t, (w,t) ∈ sh.heads → w.stream ≠ stream
  started : ∀ f ∈ bag, ∀ w, f.Calls w → w.stream = stream → sh.base.workStarted w = true

/-- The reset of the wrappers is ahead; that of the first one may have begun. -/
structure Resetting (sh : ListShared L D E) (bag : Multiset (ListFrame L D E)) (stream : Nat)
    (ws : List (ModuleWrapper L D)) (step : ResetStep) : Prop where
  settled : Settled sh bag stream
  own : ∀ v ∈ ws, v.stream = stream
  unstarted : step = .waitingTasks → ∀ w ∈ ws.head?, sh.base.workStarted w = false

structure Orderly [DecidableEq L] [DecidableEq D] (sh : ListShared L D E) (bag : Multiset (ListFrame L D E))
    (resets : Nat → Option (List (ModuleWrapper L D) × ResetStep)) : Prop where
  accounted : Accounted sh.base (sh.view bag)
  told : ∀ f ∈ bag, ∀ w, f.Announces w → (sh.base.list w).waiting = false
  announced : ∀ w, (sh.base.list w).waiting = false →
    sh.base.workStarted w = true ∨ ∃ ws, resets w.stream = some (w :: ws,.waitingTasks)
  asks : ∀ f ∈ bag, ∀ w k target, f.asks = some (w,.doneTask k target) → Serves bag k target f
  callers : ∀ w k target, (w,.doneTask k target) ∈ sh.heads → sh.base.workStarted w = false →
    ∃ f ∈ bag, f.Calls w ∧ Serves bag k target f
  calls : ∀ f ∈ bag, ∀ w, f.Calls w → sh.base.workStarted w = false → sh.nodes w ≠ []
  takers : ∀ w, (sh.base.list w).waiting = false → sh.nodes w ≠ [] → ∃ f ∈ bag, f.Takes w ∧
    (f.stage = .announce w false ∨
      ∀ k target, (sh.nodes w).getLast? = some (.doneTask k target) → Serves bag k target f)
  between : ∀ stream ws step, resets stream = some (ws,step) → Resetting sh bag stream ws step

section Steps
variable [DecidableEq L] [DecidableEq D] {job : Job L D E} {sh : ListShared L D E} {q : Option Nat}
  {f g : ListFrame L D E} {r : Reaction (ListShared L D E) (ListFrame L D E)}
  {rest bag : Multiset (ListFrame L D E)} {stream k : Nat} {w target : ModuleWrapper L D} {t : TaskId L D}
  {resets : Nat → Option (List (ModuleWrapper L D) × ResetStep)}

omit [DecidableEq L] [DecidableEq D] in
theorem atWork_iff : f.atWork stream = true ↔
    ∃ w : ModuleWrapper L D, w.stream = stream ∧ (.runModule w ∈ f.tasks ∨ f.pending = some w) := by
  constructor
  · intro working
    rcases Bool.or_eq_true_iff.mp working with held | pending
    · obtain ⟨t,member,own⟩ := List.any_eq_true.mp held
      cases t with
      | runModule w => exact ⟨w,of_decide_eq_true own,Or.inl member⟩
      | _ => cases own
    · cases waits : f.pending with
      | some w =>
        rw [waits] at pending
        exact ⟨w,of_decide_eq_true pending,Or.inr rfl⟩
      | none =>
        rw [waits] at pending
        cases pending
  · rintro ⟨w,own,held | pending⟩
    · exact Bool.or_eq_true_iff.mpr (Or.inl (List.any_eq_true.mpr ⟨_,held,decide_eq_true own⟩))
    · exact Bool.or_eq_true_iff.mpr (Or.inr (by simp [pending,own]))

omit [DecidableEq L] [DecidableEq D] in
theorem idle_held (idle : f.atWork stream = false) (held : .runModule w ∈ f.tasks) : w.stream ≠ stream := by
  intro own
  rw [atWork_iff.mpr ⟨w,own,Or.inl held⟩] at idle
  cases idle

omit [DecidableEq L] [DecidableEq D] in
theorem idle_pending (idle : f.atWork stream = false) (pending : f.pending = some w) : w.stream ≠ stream := by
  intro own
  rw [atWork_iff.mpr ⟨w,own,Or.inr pending⟩] at idle
  cases idle

omit [DecidableEq L] [DecidableEq D] in
theorem queued_pending (queued : f.queued = some w) : f.pending = some w := by
  obtain ⟨region,stage⟩ := f
  cases stage with
  | act stage =>
    cases stage with
    | queued v e => exact queued
    | _ => cases queued
  | _ => cases queued

theorem act_bound (accounted : Accounted sh.base (sh.view bag)) (member : f ∈ bag) {stage : Stage L D E}
    (acts : f.stage = .act stage) : Bound ⟨f.region,stage⟩ :=
  accounted.bound _ (mem_view.mpr (Or.inl ⟨f,member,by simp [ListFrame.view,acts]⟩))

theorem listed_bound (accounted : Accounted sh.base (sh.view bag)) (listed : (w,t) ∈ sh.heads) :
    Bound (node (E := E) w t) :=
  accounted.bound _ (mem_view.mpr (Or.inr ⟨_,listed,rfl⟩))

theorem asked_bound (accounted : Accounted sh.base (sh.view bag)) (member : f ∈ bag)
    (asks : f.asks = some (w,t)) : Bound (node (E := E) w t) := by
  rcases asks_stage asks with acts | adds
  · have bound := act_bound accounted member acts
    cases t <;> exact bound
  · exact accounted.bound _ (mem_view.mpr (Or.inl ⟨f,member,by simp [ListFrame.view,adds]⟩))

omit [DecidableEq L] [DecidableEq D] in
theorem Serves.mono {more : Multiset (ListFrame L D E)} (serves : Serves bag k target f)
    (among : ∀ e ∈ bag, e ∈ more) : Serves more k target f := by
  obtain ⟨inside,e,member,awaits⟩ := serves
  exact ⟨inside,e,among e member,awaits⟩

section Moves
variable (moved : Moves job sh q f r)

omit [DecidableEq L] [DecidableEq D] in
/-- The region does not end as long as the frame is there. -/
theorem Serves.moves {frames : Multiset (ListFrame L D E)} (serves : Serves (f ::ₘ rest) k target g)
    (member : g ∈ f ::ₘ rest) (idle : ∀ x, f.awaits = some x → ∀ g ∈ f ::ₘ rest, g.region ≠ some x.1)
    {h : ListFrame L D E} (same : h.region = g.region) : Serves (frames + rest) k target h := by
  obtain ⟨inside,e,present,awaits⟩ := serves
  refine ⟨same.trans inside,e,?_,awaits⟩
  rcases Multiset.mem_cons.mp present with rfl | other
  · exact absurd inside (idle _ awaits g member)
  · exact Multiset.mem_add.mpr (Or.inr other)

include moved

theorem Settled.idle_moves (settled : Settled sh (f ::ₘ rest) stream)
    (accounted : Accounted sh.base (sh.view (f ::ₘ rest))) (member : g ∈ r.frames) : g.atWork stream = false := by
  have acting : f ∈ f ::ₘ rest := Multiset.mem_cons_self f rest
  by_contra working
  obtain ⟨w,own,held | pending⟩ := atWork_iff.mp (by simpa using working)
  · have grasps := tasks_moves moved member held
    generalize g.region = region at grasps
    cases grasps with
    | keeps held => exact idle_held (settled.idle f acting) held own
    | starts v starts task unstarted =>
      cases task
      have started := settled.started f acting w (by simp [ListFrame.Calls,starts]) own
      rw [started] at unstarted
      cases unstarted
    | dequeues v e queued task =>
      cases task
      exact idle_pending (settled.idle f acting) (by simp [ListFrame.pending,queued]) own
    | takes v after announces listed =>
      have same : v.stream = w.stream := listed_bound accounted listed
      exact settled.unlisted v _ listed (same.trans own)
    | opens v target found next gets task => cases task
  · rcases pending_moves moved member pending with before | held
    · exact idle_pending (settled.idle f acting) before own
    · exact idle_held (settled.idle f acting) held own

theorem Settled.unasked_moves (settled : Settled sh (f ::ₘ rest) stream)
    (accounted : Accounted sh.base (sh.view (f ::ₘ rest))) (member : g ∈ r.frames) (asks : g.asks = some (w,t)) :
    w.stream ≠ stream := by
  have acting : f ∈ f ::ₘ rest := Multiset.mem_cons_self f rest
  have asked := asks_moves moved member asks
  generalize g.region = region at asked
  cases asked with
  | goes t asks => exact settled.unasked f acting w t asks
  | prefetches v gs prefetches =>
    have same : w.stream = v.stream := act_bound accounted acting prefetches w List.mem_cons_self
    rw [same]
    exact idle_held (settled.idle f acting) (by simp [ListFrame.tasks,prefetches])
  | gets v found next gets =>
    have same : w.stream = v.stream := act_bound accounted acting gets
    rw [same]
    exact idle_held (settled.idle f acting) (by simp [ListFrame.tasks,gets])

theorem Settled.moves (settled : Settled sh (f ::ₘ rest) stream)
    (accounted : Accounted sh.base (sh.view (f ::ₘ rest))) : Settled r.shared (r.frames + rest) stream where
  idle := by
    intro g member
    rcases Multiset.mem_add.mp member with new | old
    · exact settled.idle_moves moved accounted new
    · exact settled.idle g (Multiset.mem_cons_of_mem old)
  unasked := by
    intro g member w t asks
    rcases Multiset.mem_add.mp member with new | old
    · exact settled.unasked_moves moved accounted new asks
    · exact settled.unasked g (Multiset.mem_cons_of_mem old) w t asks
  unlisted := by
    intro w t listed
    rcases heads_moves moved listed with old | adds
    · exact settled.unlisted w t old
    · exact settled.unasked f (Multiset.mem_cons_self f rest) w t (by simp [ListFrame.asks,adds])
  started := by
    intro g member w calls own
    have acting : f ∈ f ::ₘ rest := Multiset.mem_cons_self f rest
    rcases Multiset.mem_add.mp member with new | old
    · rcases called_moves moved new calls with before | ⟨t,adds⟩ | ⟨⟨t,asks⟩,_⟩
      · exact started_moves moved (settled.started f acting w before own)
      · exact absurd own (settled.unasked f acting w t (by simp [ListFrame.asks,adds]))
      · exact absurd own (settled.unasked f acting w t asks)
    · exact started_moves moved (settled.started g (Multiset.mem_cons_of_mem old) w calls own)

theorem Resetting.moves {ws : List (ModuleWrapper L D)} {step : ResetStep}
    (resetting : Resetting sh (f ::ₘ rest) stream ws step)
    (accounted : Accounted sh.base (sh.view (f ::ₘ rest))) :
    Resetting r.shared (r.frames + rest) stream ws step where
  settled := resetting.settled.moves moved accounted
  own := resetting.own
  unstarted := by
    intro last w first
    have before := resetting.unstarted last w first
    by_contra started
    have began : r.shared.base.workStarted w = true := by simpa using started
    rcases starting_moves moved began with old | calls
    · rw [old] at before
      cases before
    · rw [resetting.settled.started f (Multiset.mem_cons_self f rest) w calls
        (resetting.own w (List.mem_of_mem_head? first))] at before
      cases before

section After
variable (orderly : Orderly sh (f ::ₘ rest) resets)
include orderly

theorem Orderly.announced_after (told : (r.shared.base.list w).waiting = false) :
    r.shared.base.workStarted w = true ∨ ∃ ws, resets w.stream = some (w :: ws,.waitingTasks) := by
  rcases told_moves moved told with before | ⟨e,ends,_⟩
  · exact (orderly.announced w before).imp_left (started_moves moved)
  · left
    have seen : (⟨f.region,.doneWaiting w e⟩ : Frame L D E) ∈ sh.view (f ::ₘ rest) :=
      mem_view.mpr (Or.inl ⟨f,Multiset.mem_cons_self f rest,by simp [ListFrame.view,ends]⟩)
    exact started_moves moved (works_started orderly.accounted.work seen (by simp [works]))

/-- A call that has yet to start the module has its task in the list. -/
theorem Orderly.calls_after (member : g ∈ r.frames + rest) (calls : g.Calls w)
    (unstarted : r.shared.base.workStarted w = false) : r.shared.nodes w ≠ [] := by
  have acting : f ∈ f ::ₘ rest := Multiset.mem_cons_self f rest
  have before : sh.base.workStarted w = false := by
    by_contra started
    rw [started_moves moved (by simpa using started)] at unstarted
    cases unstarted
  have unannounced (between : ∀ ws, resets w.stream ≠ some (w :: ws,.waitingTasks)) :
      (sh.base.list w).waiting ≠ false := by
    intro told
    rcases orderly.announced w told with started | ⟨ws,ahead⟩
    · rw [before] at started
      cases started
    · exact between ws ahead
  have stays {h : ListFrame L D E} (inside : h ∈ f ::ₘ rest) (calls : h.Calls w) : r.shared.nodes w ≠ [] := by
    have filled := orderly.calls h inside w calls before
    rcases nodes_moves moved w with same | ⟨t,_,added⟩ | ⟨⟨after,announces⟩,_⟩
    · rwa [same]
    · rw [added]
      exact List.cons_ne_nil t _
    · refine absurd (orderly.told f acting w (by simp [ListFrame.Announces,announces])) (unannounced ?_)
      intro ws ahead
      have started := (orderly.between _ _ _ ahead).settled.started h inside w calls rfl
      rw [before] at started
      cases started
  rcases Multiset.mem_add.mp member with new | old
  · rcases called_moves moved new calls with called | ⟨t,adds⟩ | ⟨⟨t,asks⟩,told⟩
    · exact stays acting called
    · rw [added_nodes moved adds]
      exact List.cons_ne_nil t _
    · refine absurd told (unannounced fun ws ahead => ?_)
      exact (orderly.between _ _ _ ahead).settled.unasked f acting w t asks rfl
  · exact stays (Multiset.mem_cons_of_mem old) calls

variable (idle : ∀ x, f.awaits = some x → ∀ g ∈ f ::ₘ rest, g.region ≠ some x.1)
include idle

theorem Orderly.asks_after (member : g ∈ r.frames + rest) (asks : g.asks = some (w,.doneTask k target)) :
    Serves (r.frames + rest) k target g := by
  rcases Multiset.mem_add.mp member with new | old
  · have asked := asks_moves moved new asks
    generalize same : g.region = region at asked
    cases asked with
    | goes _ before =>
      have acting : f ∈ f ::ₘ rest := Multiset.mem_cons_self f rest
      exact (orderly.asks f acting w k target before).moves acting idle same
    | gets v found next gets opens =>
      obtain ⟨e,inside,awaits⟩ := opens
      exact ⟨same,e,Multiset.mem_add.mpr (Or.inl inside),awaits⟩
  · have inside : g ∈ f ::ₘ rest := Multiset.mem_cons_of_mem old
    exact (orderly.asks g inside w k target asks).moves inside idle rfl

theorem Orderly.callers_after (listed : (w,.doneTask k target) ∈ r.shared.heads)
    (unstarted : r.shared.base.workStarted w = false) :
    ∃ g ∈ r.frames + rest, g.Calls w ∧ Serves (r.frames + rest) k target g := by
  have acting : f ∈ f ::ₘ rest := Multiset.mem_cons_self f rest
  rcases heads_moves moved listed with old | adds
  · have before : sh.base.workStarted w = false := by
      by_contra started
      rw [started_moves moved (by simpa using started)] at unstarted
      cases unstarted
    obtain ⟨h,inside,calls,serves⟩ := orderly.callers w k target old before
    rcases Multiset.mem_cons.mp inside with rfl | other
    · rcases calls_moves moved calls with ⟨g,new,region,calls⟩ | started
      · exact ⟨g,Multiset.mem_add.mpr (Or.inl new),calls,serves.moves acting idle region⟩
      · rw [started] at unstarted
        cases unstarted
    · exact ⟨h,Multiset.mem_add.mpr (Or.inr other),calls,serves.moves inside idle rfl⟩
  · obtain ⟨g,new,region,calls⟩ := added_calls moved adds
    have serves := orderly.asks f acting w k target (by simp [ListFrame.asks,adds])
    exact ⟨g,Multiset.mem_add.mpr (Or.inl new),calls,serves.moves acting idle region⟩

/-- Whoever has put the first node in the list of a finished module takes it out again. -/
theorem Orderly.takers_after (told : (r.shared.base.list w).waiting = false) (filled : r.shared.nodes w ≠ []) :
    ∃ g ∈ r.frames + rest, g.Takes w ∧ (g.stage = .announce w false ∨
      ∀ k target, (r.shared.nodes w).getLast? = some (.doneTask k target) → Serves (r.frames + rest) k target g) := by
  have acting : f ∈ f ::ₘ rest := Multiset.mem_cons_self f rest
  rcases told_moves moved told with before | ⟨e,_,announces⟩
  · have stays (nonempty : sh.nodes w ≠ []) (same : (r.shared.nodes w).getLast? = (sh.nodes w).getLast?) :
        ∃ g ∈ r.frames + rest, g.Takes w ∧ (g.stage = .announce w false ∨ ∀ k target,
          (r.shared.nodes w).getLast? = some (.doneTask k target) → Serves (r.frames + rest) k target g) := by
      obtain ⟨h,inside,takes,serves⟩ := orderly.takers w before nonempty
      rw [same]
      rcases Multiset.mem_cons.mp inside with rfl | other
      · obtain ⟨g,new,region,takes⟩ := (takes_moves moved before takes).resolve_right filled
        refine ⟨g,Multiset.mem_add.mpr (Or.inl new),takes,Or.inr fun k target last => ?_⟩
        rcases serves with announces | serves
        · exact absurd (announced_nodes moved announces) filled
        · exact (serves k target last).moves acting idle region
      · refine ⟨h,Multiset.mem_add.mpr (Or.inr other),takes,serves.imp_right fun serves k target last => ?_⟩
        exact (serves k target last).moves inside idle rfl
    rcases nodes_moves moved w with same | ⟨t,adds,added⟩ | ⟨_,gone⟩
    · exact stays (by rwa [← same]) (by rw [same])
    · by_cases empty : sh.nodes w = []
      · obtain ⟨_,_,g,new,region,takes⟩ := fills_moves moved empty filled
        refine ⟨g,Multiset.mem_add.mpr (Or.inl new),takes,Or.inr fun k target last => ?_⟩
        rw [added,empty,List.getLast?_singleton] at last
        obtain rfl := Option.some.inj last
        exact (orderly.asks f acting w k target (by simp [ListFrame.asks,adds])).moves acting idle region
      · refine stays empty ?_
        rw [added,List.getLast?_cons_of_ne_nil empty]
    · exact absurd gone filled
  · exact ⟨_,Multiset.mem_add.mpr (Or.inl announces),Or.inr ⟨false,rfl⟩,Or.inl rfl⟩

theorem Orderly.after : Orderly r.shared (r.frames + rest) resets where
  accounted := accounted_moves orderly.accounted (orderly.told f (Multiset.mem_cons_self f rest)) moved
  told _ member _ announces := told_after orderly.told moved member announces
  announced _ told := orderly.announced_after moved told
  asks _ member _ _ _ asks := orderly.asks_after moved idle member asks
  callers _ _ _ listed unstarted := orderly.callers_after moved idle listed unstarted
  calls _ member _ calls unstarted := orderly.calls_after moved member calls unstarted
  takers _ told filled := orderly.takers_after moved idle told filled
  between stream ws step ahead := (orderly.between stream ws step ahead).moves moved orderly.accounted

end After
end Moves
end Steps
end ToyMtFramework.OpenMP.Announce
