import ToyMtFramework.OpenMPGetRegions

/-! The work for a `get` stays inside its region. While the region is open, each thread that has a task of
the needed modules in its hands is in the region; the tasks that wait in a list will be released by such a
thread; so when the region is left by all threads the producer has announced. -/
namespace ToyMtFramework.OpenMP.Announce
open Activities Transition

variable {L D E : Type}

section Machine
variable [DecidableEq L] [DecidableEq D] (job : Job L D E)

/-- The tasks that the `get` of `target` with region `k` waits for. -/
def Awaited (k : Nat) (target : ModuleWrapper L D) : TaskId L D → Prop
  | .runModule w => Needs job target w
  | .doneTask j v => j = k ∧ v = target
  | .outside => False

structure Served (sh : ListShared L D E) (bag : Multiset (ListFrame L D E)) (k : Nat)
    (target : ModuleWrapper L D) : Prop where
  hands : ∀ f ∈ bag, ∀ t ∈ f.tasks, Awaited job k target t → sh.within f.region (some k) = true
  announcers : ∀ f ∈ bag, ∀ w, f.stage = .announce w false → Needs job target w →
    sh.within f.region (some k) = true ∨ ∀ t, Awaited job k target t → ¬Joins sh bag w t
  takers : ∀ w, Needs job target w → (sh.base.list w).waiting = false →
    (∃ t, Awaited job k target t ∧ Joins sh bag w t) → sh.nodes w ≠ [] →
      ∃ f ∈ bag, sh.within f.region (some k) = true ∧ f.Takes w
  callers : ∀ w t, (w,t) ∈ sh.heads → Awaited job k target t → sh.base.workStarted w = false →
    ∃ f ∈ bag, sh.within f.region (some k) = true ∧ f.Calls w

structure Attended (sh : ListShared L D E) (bag : Multiset (ListFrame L D E)) : Prop where
  informed : Informed job sh.base (sh.view bag)
  nested : Nested sh bag
  told : ∀ f ∈ bag, ∀ w, f.Announces w → (sh.base.list w).waiting = false
  served : ∀ e ∈ bag, ∀ x, e.awaits = some x → Served job sh bag x.1 x.2

end Machine

section Moves
variable [DecidableEq L] [DecidableEq D] {job : Job L D E} {sh : ListShared L D E} {q : Option Nat}
  {f g : ListFrame L D E} {r : Reaction (ListShared L D E) (ListFrame L D E)} {rest bag : Multiset (ListFrame L D E)}
  {k : Nat} {target w : ModuleWrapper L D} {t : TaskId L D}

/-- A task of the `get` waits for a module that the producer needs. -/
theorem Attended.needs (attended : Attended job sh bag) (joins : Joins sh bag w t)
    (awaited : Awaited job k target t) : Needs job target w := by
  have seen := joins_view joins
  cases t with
  | runModule v => exact awaited.tail (attended.informed.due _ seen)
  | doneTask j v =>
    obtain ⟨rfl,rfl⟩ := awaited
    rw [(attended.informed.kept.carries _ seen).1]
    exact .refl
  | outside => exact awaited.elim

section Served
variable (served : Served job sh (f ::ₘ rest) k target) (attended : Attended job sh (f ::ₘ rest))
  (moves : Moves job sh q f r)
include served attended moves

theorem Served.announcers_moves : ∀ g ∈ r.frames + rest, ∀ w, g.stage = .announce w false →
    Needs job target w → r.shared.within g.region (some k) = true ∨
      ∀ t, Awaited job k target t → ¬Joins r.shared (r.frames + rest) w t := by
  intro g inside w announces needs
  rcases Multiset.mem_add.mp inside with new | old
  · obtain ⟨x,ends,region⟩ := announced_moves moves new announces
    left
    rw [region,attended.nested.within_moves moves (Multiset.mem_cons_self f rest)]
    exact served.hands f (Multiset.mem_cons_self f rest) (.runModule w) (by simp [ListFrame.tasks,ends]) needs
  · have told := attended.told g (Multiset.mem_cons_of_mem old) w (by simp [ListFrame.Announces,announces])
    rw [attended.nested.within_moves moves (Multiset.mem_cons_of_mem old)]
    rcases served.announcers g (Multiset.mem_cons_of_mem old) w announces needs with within | apart
    · exact Or.inl within
    · exact Or.inr fun t awaited joins => apart t awaited (joins_moves moves told joins)

theorem Served.callers_moves : ∀ w t, (w,t) ∈ r.shared.heads → Awaited job k target t →
    r.shared.base.workStarted w = false →
      ∃ g ∈ r.frames + rest, r.shared.within g.region (some k) = true ∧ g.Calls w := by
  intro w t listed awaited unstarted
  have own : r.shared.within f.region (some k) = sh.within f.region (some k) :=
    attended.nested.within_moves moves (Multiset.mem_cons_self f rest) _
  rcases heads_moves moves listed with old | adds
  · have before : sh.base.workStarted w = false := by
      by_contra started
      rw [started_moves moves (by simpa using started)] at unstarted
      cases unstarted
    obtain ⟨h,present,within,calls⟩ := served.callers w t old awaited before
    rcases Multiset.mem_cons.mp present with rfl | other
    · rcases calls_moves moves calls with ⟨g,new,region,calls⟩ | started
      · refine ⟨g,Multiset.mem_add.mpr (Or.inl new),?_,calls⟩
        rw [region,own]
        exact within
      · rw [started] at unstarted
        cases unstarted
    · refine ⟨h,Multiset.mem_add.mpr (Or.inr other),?_,calls⟩
      rw [attended.nested.within_moves moves present]
      exact within
  · obtain ⟨g,new,region,calls⟩ := added_calls moves adds
    refine ⟨g,Multiset.mem_add.mpr (Or.inl new),?_,calls⟩
    rw [region,own]
    exact served.hands f (Multiset.mem_cons_self f rest) t (by simp [ListFrame.tasks,adds]) awaited

variable (covered : Covered job sh (f ::ₘ rest) f q)
  (working : ∀ j, q = some j → Opened (f ::ₘ rest) j)
  {e : ListFrame L D E} (member : e ∈ f ::ₘ rest) (awaits : e.awaits = some (k,target))
include covered working member awaits

theorem Served.hands_moves : ∀ g ∈ r.frames + rest, ∀ t ∈ g.tasks, Awaited job k target t →
    r.shared.within g.region (some k) = true := by
  intro g inside t held awaited
  have own : r.shared.within f.region (some k) = sh.within f.region (some k) :=
    attended.nested.within_moves moves (Multiset.mem_cons_self f rest) _
  rcases Multiset.mem_add.mp inside with new | old
  · have grasps := tasks_moves moves new held
    generalize g.region = region at grasps
    cases grasps with
    | keeps held =>
      rw [own]
      exact served.hands f (Multiset.mem_cons_self f rest) t held awaited
    | starts w starts task unstarted =>
      subst task
      rw [own]
      simp only [Covered,starts] at covered
      exact covered unstarted e member _ awaits awaited
    | dequeues w x queued task =>
      subst task
      simp only [Covered,queued] at covered
      rw [attended.nested.within_opened moves working]
      exact covered e member _ awaits awaited
    | takes w after announces listed =>
      rw [own]
      have needs := attended.needs (Or.inl listed) awaited
      cases after with
      | true =>
        have told := attended.told f (Multiset.mem_cons_self f rest) w (by simp [ListFrame.Announces,announces])
        simp only [Covered,announces] at covered
        exact covered told e member _ awaits needs
      | false =>
        rcases served.announcers f (Multiset.mem_cons_self f rest) w announces needs with within | apart
        · exact within
        · exact absurd (Or.inl listed) (apart t awaited)
    | opens w v found next gets task =>
      subst task
      have below := (attended.nested.order e member _ awaits).1
      exact absurd awaited.1 (Nat.ne_of_gt below)
  · rw [attended.nested.within_moves moves (Multiset.mem_cons_of_mem old)]
    exact served.hands g (Multiset.mem_cons_of_mem old) t held awaited

theorem Served.takers_moves : ∀ w, Needs job target w → (r.shared.base.list w).waiting = false →
    (∃ t, Awaited job k target t ∧ Joins r.shared (r.frames + rest) w t) → r.shared.nodes w ≠ [] →
      ∃ g ∈ r.frames + rest, r.shared.within g.region (some k) = true ∧ g.Takes w := by
  intro w needs told awaited nonempty
  have own : r.shared.within f.region (some k) = sh.within f.region (some k) :=
    attended.nested.within_moves moves (Multiset.mem_cons_self f rest) _
  rcases told_moves moves told with before | ⟨x,ends,announces⟩
  · by_cases empty : sh.nodes w = []
    · obtain ⟨t,adds,g,new,region,takes⟩ := fills_moves moves empty nonempty
      refine ⟨g,Multiset.mem_add.mpr (Or.inl new),?_,takes⟩
      rw [region,own]
      simp only [Covered,adds] at covered
      exact covered before e member _ awaits needs
    · obtain ⟨t,awaited,joins⟩ := awaited
      obtain ⟨h,present,within,takes⟩ :=
        served.takers w needs before ⟨t,awaited,joins_moves moves before joins⟩ empty
      rcases Multiset.mem_cons.mp present with rfl | other
      · obtain ⟨g,new,region,takes⟩ := (takes_moves moves before takes).resolve_right nonempty
        refine ⟨g,Multiset.mem_add.mpr (Or.inl new),?_,takes⟩
        rw [region,own]
        exact within
      · refine ⟨h,Multiset.mem_add.mpr (Or.inr other),?_,takes⟩
        rw [attended.nested.within_moves moves present]
        exact within
  · refine ⟨_,Multiset.mem_add.mpr (Or.inl announces),?_,Or.inr ⟨false,rfl⟩⟩
    rw [own]
    exact served.hands f (Multiset.mem_cons_self f rest) (.runModule w) (by simp [ListFrame.tasks,ends]) needs

theorem Served.preserved : Served job r.shared (r.frames + rest) k target where
  hands := served.hands_moves attended moves covered working member awaits
  announcers := served.announcers_moves attended moves
  takers := served.takers_moves attended moves covered working member awaits
  callers := served.callers_moves attended moves

end Served

/-- When a region opens, nobody has a task in his hands that it will wait for. -/
theorem Attended.unheld (attended : Attended job sh bag)
    (quiet : ∀ w, Needs job target w → sh.base.workStarted w = true → (sh.base.list w).waiting = false)
    (awaited : Awaited job sh.base.regions target t) :
    (∀ g ∈ bag, t ∉ g.tasks) ∧ ∀ w, ¬Joins sh bag w t := by
  have kept := attended.informed.kept
  have nothing : weigh (owns t) (sh.view bag) = 0 ∧ ∀ w, t = .runModule w → weigh (works w) (sh.view bag) = 0 := by
    rw [← kept.owners]
    cases t with
    | runModule w =>
      have work := kept.work w
      have once := Bool.toNat_le (sh.base.workStarted w)
      cases started : sh.base.workStarted w with
      | false =>
        rw [started,Bool.toNat_false] at work
        exact ⟨by omega,fun v same => by cases same; omega⟩
      | true =>
        have announced := List.length_pos_of_mem (kept.closed w (quiet w awaited started))
        exact ⟨by omega,fun v same => by cases same; omega⟩
    | doneTask j v =>
      obtain ⟨rfl,rfl⟩ := awaited
      exact ⟨(kept.fresh _ _ (Nat.le_refl _)).1,fun v same => by cases same⟩
    | outside => exact awaited.elim
  obtain ⟨unowned,idle⟩ := nothing
  constructor
  · intro g member held
    have seen : 0 < weigh (owns t) (sh.view bag) ∨ ∃ w, t = .runModule w ∧ 0 < weigh (works w) (sh.view bag) :=
      tasks_view member held
    rcases seen with owned | ⟨w,rfl,working⟩
    · omega
    · rw [idle w rfl] at working
      exact Nat.lt_irrefl 0 working
  · intro w joins
    have owned := weigh_eq_zero unowned (joins_view joins)
    simp [node,owns] at owned

/-- The region that a call of `get` opens is served by the call that it makes in it. -/
theorem Attended.opens (attended : Attended job sh (f ::ₘ rest)) (covered : Covered job sh (f ::ₘ rest) f q)
    (moves : Moves job sh q f r) (member : g ∈ r.frames) {x : Nat × ModuleWrapper L D} (awaits : g.awaits = some x) :
    Served job r.shared (r.frames + rest) x.1 x.2 := by
  obtain ⟨fresh,_,_,nest,w,found,next,gets,missing⟩ := awaits_moves moves member awaits
  simp only [Covered,gets,missing,Bool.false_eq_true,if_false] at covered
  have unheld {t : TaskId L D} (awaited : Awaited job x.1 x.2 t) :=
    attended.unheld covered (t := t) (by rwa [← fresh])
  have apart {t : TaskId L D} (awaited : Awaited job x.1 x.2 t) (v : ModuleWrapper L D) :
      ¬Joins r.shared (r.frames + rest) v t := by
    rintro (listed | ⟨h,present,adds⟩)
    · rcases heads_moves moves listed with old | adds
      · exact (unheld awaited).2 v (Or.inl old)
      · rw [gets] at adds
        cases adds
    · rcases Multiset.mem_add.mp present with new | old
      · have calls := (adds_moves moves new adds).2
        rw [gets] at calls
        cases calls
      · exact (unheld awaited).2 v (Or.inr ⟨h,Multiset.mem_cons_of_mem old,adds⟩)
  constructor
  · intro h present t held awaited
    rcases Multiset.mem_add.mp present with new | old
    · have grasps := tasks_moves moves new held
      generalize h.region = region at grasps
      cases grasps with
      | keeps held => exact absurd held ((unheld awaited).1 f (Multiset.mem_cons_self f rest))
      | opens =>
        rw [← fresh]
        simp [ListShared.within,nest]
      | starts _ other | dequeues _ _ other | takes _ _ other =>
        rw [gets] at other
        cases other
    · exact absurd held ((unheld awaited).1 h (Multiset.mem_cons_of_mem old))
  · exact fun _ _ v _ _ => Or.inr fun t awaited => apart awaited v
  · rintro v - - ⟨t,awaited,joins⟩
    exact absurd joins (apart awaited v)
  · exact fun v t listed awaited => absurd (Or.inl listed) (apart awaited v)

/-- What is in an open region stays in it. -/
theorem Attended.moves (attended : Attended job sh (f ::ₘ rest)) (proper : Proper job sh.base f)
    (covered : Covered job sh (f ::ₘ rest) f q) (moves : Moves job sh q f r)
    (idle : ∀ x, f.awaits = some x → ∀ g ∈ f ::ₘ rest, g.region ≠ some x.1)
    (working : ∀ k, q = some k → Opened (f ::ₘ rest) k) :
    Attended job r.shared (r.frames + rest) where
  informed := by
    have seen : Seen job sh.base f (sh.view (f ::ₘ rest)) r.shared.base (r.shared.view (r.frames + rest)) :=
      moves_view moves fun w nodes after walks =>
        attended.told f (Multiset.mem_cons_self f rest) w (by simp [ListFrame.Announces,walks])
    have informed := attended.informed
    generalize sh.view (f ::ₘ rest) = before at informed seen
    generalize r.shared.base = base at seen
    generalize r.shared.view (r.frames + rest) = after at seen
    cases seen with
    | still => exact informed
    | acts h reaction others view reacts own =>
      rw [view] at informed
      rcases own with same | ⟨w,t,waits⟩
      · obtain ⟨produces,own,last⟩ := proper ⟨f.region,h.stage⟩ (by simp [ListFrame.acting,same])
        exact informed.react produces own last reacts
      · exact informed.react (by simp [Produces,waits]) (by simp [PutsOwn,waits]) (by simp [Frame.putsLast,waits]) reacts
  nested := attended.nested.moves moves idle working
  told _ member _ announces := told_after attended.told moves member announces
  served := by
    intro e member x awaits
    rcases Multiset.mem_add.mp member with new | old
    · exact attended.opens covered moves new awaits
    · have before : e ∈ f ::ₘ rest := Multiset.mem_cons_of_mem old
      exact (attended.served e before x awaits).preserved attended moves covered working before awaits

/-- When no frame is left in the region, and no needed module in a queue, the producer has announced. -/
theorem Attended.released {e : ListFrame L D E} (attended : Attended job sh bag) (member : e ∈ bag)
    (awaits : e.awaits = some (k,target)) (idle : ∀ f ∈ bag, f.region ≠ some k)
    (unqueued : ∀ f ∈ bag, ∀ w ∈ f.queued, ¬Needs job target w)
    (acyclic : WellFounded fun g w => g ∈ job.getters w) : sh.base.refCount (.doneTask k target) = 0 := by
  have served := attended.served e member _ awaits
  have kept := attended.informed.kept
  have outside := attended.nested.empty idle
  have unheld {t : TaskId L D} (awaited : Awaited job k target t) : ∀ f ∈ bag, t ∉ f.tasks := by
    intro f inside held
    have within := served.hands f inside t held awaited
    rw [outside f inside] at within
    cases within
  -- A task waits in a list only while the module of the list is at work.
  have lists {w : ModuleWrapper L D} {t : TaskId L D} (listed : (w,t) ∈ sh.heads)
      (awaited : Awaited job k target t) : sh.base.workStarted w = true ∧ sh.base.outcomes w = [] := by
    constructor
    · by_contra unstarted
      obtain ⟨f,inside,within,_⟩ := served.callers w t listed awaited (Bool.eq_false_iff.mpr unstarted)
      rw [outside f inside] at within
      cases within
    · by_contra announced
      obtain ⟨f,inside,within,_⟩ := served.takers w (attended.needs (Or.inl listed) awaited)
        (attended.informed.told w announced) ⟨t,awaited,Or.inl listed⟩
        (List.ne_nil_of_mem (mem_nodes.mpr listed))
      rw [outside f inside] at within
      cases within
  have announced (w : ModuleWrapper L D) (needs : Needs job target w) (started : sh.base.workStarted w = true) :
      sh.base.outcomes w ≠ [] := by
    induction w using acyclic.induction with
    | _ w ih =>
      intro silent
      have awaited : Awaited job k target (.runModule w) := needs
      have work := kept.work w
      rw [silent,started,List.length_nil,Bool.toNat_true] at work
      by_cases working : 0 < weigh (works w) (sh.view bag)
      · obtain ⟨h,seen,working⟩ := (weigh_pos_iff _ _).mp working
        rcases mem_view.mp seen with ⟨f,inside,seen⟩ | ⟨x,_,rfl⟩
        · rcases works_view seen working with held | queued
          · exact unheld awaited f inside held
          · exact unqueued f inside w queued needs
        · exact absurd working (Nat.lt_irrefl 0)
      · have owned : 0 < weigh (owns (.runModule w)) (sh.view bag) := by
          rw [← kept.owners]
          omega
        obtain ⟨h,seen,owned⟩ := (weigh_pos_iff _ _).mp owned
        rcases mem_view.mp seen with ⟨f,inside,view⟩ | ⟨⟨g,t⟩,listed,rfl⟩
        · exact unheld awaited f inside (owns_view view owned)
        · obtain rfl : .runModule w = t := counted owned
          obtain ⟨began,unannounced⟩ := lists listed needs
          have gets : g ∈ job.getters w := attended.informed.due _ seen
          exact ih g gets (needs.tail gets) began unannounced
  by_contra held
  rw [kept.owners] at held
  obtain ⟨h,seen,owned⟩ := (weigh_pos_iff _ _).mp (Nat.pos_of_ne_zero held)
  have awaited : Awaited job k target (.doneTask k target) := ⟨rfl,rfl⟩
  rcases mem_view.mp seen with ⟨f,inside,view⟩ | ⟨⟨g,t⟩,listed,rfl⟩
  · exact unheld awaited f inside (owns_view view owned)
  · obtain rfl : .doneTask k target = t := counted owned
    obtain ⟨began,unannounced⟩ := lists listed awaited
    exact announced g (attended.needs (Or.inl listed) awaited) began unannounced

end Moves

section Run
variable [DecidableEq L] [DecidableEq D] {job : Job L D E} {sh : ListShared L D E} {f : ListFrame L D E}
  {bag : Multiset (ListFrame L D E)} {stream : Nat} {w : ModuleWrapper L D}

omit [DecidableEq L] [DecidableEq D] in
theorem concerns_view (apart : f.concerns stream = false) : ∀ h ∈ f.view, h.concerns stream = false := by
  intro h seen
  obtain ⟨region,stage⟩ := f
  cases stage with
  | act stage =>
    obtain rfl := List.mem_singleton.mp seen
    exact apart
  | add v t =>
    rcases List.mem_pair.mp seen with rfl | rfl
    · exact (Bool.or_eq_false_iff.mp apart).1
    · exact apart
  | recheck v =>
    obtain rfl := List.mem_singleton.mp seen
    exact apart
  | announce v after =>
    cases after with
    | true =>
      obtain rfl := List.mem_singleton.mp seen
      exact apart
    | false => cases seen
  | walk v nodes after | look v nodes after =>
    obtain ⟨own,others⟩ := Bool.or_eq_false_iff.mp apart
    rcases mem_nodes_view seen with ⟨t,listed,rfl⟩ | call
    · exact Bool.or_eq_false_iff.mpr ⟨own,by simpa using List.any_eq_false.mp others t listed⟩
    · simpa only [Frame.concerns,call] using own

omit [DecidableEq L] [DecidableEq D] in
theorem announces_concerns (apart : f.concerns stream = false) (announces : f.Announces w) : w.stream ≠ stream := by
  obtain ⟨region,stage⟩ := f
  rintro rfl
  cases stage with
  | announce v after =>
    obtain rfl : v = w := announces
    simp [ListFrame.concerns] at apart
  | walk v nodes after | look v nodes after =>
    obtain rfl : v = w := announces
    simp [ListFrame.concerns] at apart
  | _ => exact announces.elim

theorem Attended.reset (attended : Attended job sh bag) (quiet : ∀ f ∈ bag, f.concerns stream = false)
    (unlisted : ∀ x ∈ sh.heads, x.1.stream ≠ stream ∧ x.2.concerns stream = false) :
    Attended job (sh.reset stream) bag where
  informed := by
    apply attended.informed.reset
    intro h seen
    rcases mem_view.mp seen with ⟨f,member,view⟩ | ⟨x,listed,rfl⟩
    · exact concerns_view (quiet f member) h view
    · obtain ⟨own,task⟩ := unlisted x listed
      exact Bool.or_eq_false_iff.mpr ⟨decide_eq_false own,task⟩
  nested := ⟨attended.nested.opened,attended.nested.order⟩
  told f member w announces := by
    have apart := announces_concerns (quiet f member) announces
    simpa [ListShared.reset,Shared.reset,apart] using attended.told f member w announces
  served e member x awaits := by
    have served := attended.served e member x awaits
    refine ⟨served.hands,served.announcers,fun w needs told => ?_,fun w t listed awaited unstarted => ?_⟩
    · have apart : w.stream ≠ stream := by
        intro inside
        simp [ListShared.reset,Shared.reset,inside] at told
      exact served.takers w needs (by simpa [ListShared.reset,Shared.reset,apart] using told)
    · have apart := (unlisted _ listed).1
      exact served.callers w t listed awaited (by simpa [ListShared.reset,Shared.reset,apart] using unstarted)

theorem Attended.request (attended : Attended job sh bag) (w : ModuleWrapper L D) {region : Option Nat}
    (working : ∀ k, region = some k → Opened bag k) :
    Attended job (sh.hold .outside) (⟨region,.act (.doWorkAsync w .outside)⟩ ::ₘ bag) where
  informed := by
    rw [view_cons]
    exact attended.informed.request w region
  nested := by
    constructor
    · intro f member j inside
      have opened : Opened bag j := by
        rcases Multiset.mem_cons.mp member with rfl | old
        · exact working j inside
        · exact attended.nested.opened f old j inside
      obtain ⟨e,awaiting,awaits⟩ := opened
      exact ⟨e,Multiset.mem_cons_of_mem awaiting,awaits⟩
    · intro e member x awaits
      rcases Multiset.mem_cons.mp member with rfl | old
      · cases awaits
      · exact attended.nested.order e old x awaits
  told f member v announces := by
    rcases Multiset.mem_cons.mp member with rfl | old
    · exact announces.elim
    · exact attended.told f old v announces
  served e member x awaits := by
    rcases Multiset.mem_cons.mp member with rfl | old
    · cases awaits
    · have served := attended.served e old x awaits
      have before {v : ModuleWrapper L D} {t : TaskId L D}
          (joins : Joins (sh.hold .outside) (⟨region,.act (.doWorkAsync w .outside)⟩ ::ₘ bag) v t) :
          Joins sh bag v t := by
        rcases joins with listed | ⟨g,present,adds⟩
        · exact Or.inl listed
        · rcases Multiset.mem_cons.mp present with rfl | other
          · cases adds
          · exact Or.inr ⟨g,other,adds⟩
      constructor
      · intro f present t held awaited
        rcases Multiset.mem_cons.mp present with rfl | other
        · rw [List.mem_singleton.mp held] at awaited
          exact awaited.elim
        · exact served.hands f other t held awaited
      · intro f present v announces needs
        rcases Multiset.mem_cons.mp present with rfl | other
        · cases announces
        · exact (served.announcers f other v announces needs).imp_right fun apart t awaited joins =>
            apart t awaited (before joins)
      · rintro v needs told ⟨t,awaited,joins⟩ filled
        obtain ⟨f,present,takes⟩ := served.takers v needs told ⟨t,awaited,before joins⟩ filled
        exact ⟨f,Multiset.mem_cons_of_mem present,takes⟩
      · intro v t listed awaited unstarted
        obtain ⟨f,present,calls⟩ := served.callers v t listed awaited unstarted
        exact ⟨f,Multiset.mem_cons_of_mem present,calls⟩

omit [DecidableEq L] [DecidableEq D] in
theorem opened_mem {s : State L D E} {region : Option Nat} (working : opened s region = true) :
    ∀ k, region = some k → Opened s.bag k := by
  rintro k rfl
  have found : s.threads.flatten.any (fun f => regions.waits f = some k) = true := working
  obtain ⟨e,member,waits⟩ := List.any_eq_true.mp found
  have waits := of_decide_eq_true waits
  rw [waits_eq] at waits
  obtain ⟨⟨j,target⟩,awaits,rfl⟩ := Option.map_eq_some_iff.mp waits
  exact ⟨e,Multiset.mem_coe.mpr member,target,awaits⟩

theorem Attended.next {s t : State L D E} {a : Action L D} (attended : Attended job s.shared s.bag)
    (allowed : Allowed job s a) (taken : next job s a = some t) : Attended job t.shared t.bag := by
  cases a with
  | act thread choice =>
    obtain ⟨working,stepped⟩ := Option.ite_none_right_eq_some.mp taken
    obtain ⟨stepped,idle⟩ := Queues.step_idle stepped
    obtain ⟨f,r,rest,reacted,shared,before,after,top⟩ := Pool.step_bag stepped
    obtain ⟨proper,covered⟩ := allowed f top
    have waits : ∀ x, f.awaits = some x → ∀ g ∈ s.bag, g.region ≠ some x.1 :=
      fun x awaits => regions_idle awaits (idle f top)
    have works := opened_mem working
    rw [before] at attended covered waits works
    rw [shared,after]
    exact attended.moves proper covered (react_moves reacted) waits works
  | request w region =>
    obtain ⟨working,same⟩ := Option.ite_none_right_eq_some.mp taken
    cases same
    rw [Pool.bag_spawn]
    exact attended.request w (opened_mem working)
  | reset stream =>
    cases taken
    exact attended.reset allowed.1 allowed.2

/-- In a run whose steps are allowed the work for each `get` is inside its region. -/
theorem attended {s : State L D E} (run : Reaches (next job) (Allowed job) (initial L D E) s) :
    Attended job s.shared s.bag := by
  have preserved (s : State L D E) (a : Action L D) (t : State L D E) (attended : Attended job s.shared s.bag)
      (allowed : Allowed job s a) (taken : next job s a = some t) : Attended job t.shared t.bag :=
    attended.next allowed taken
  have start : Attended job (initial L D E).shared (initial L D E).bag := by
    have still : Reaches (OpenMP.next job) Careful (OpenMP.initial L D E) (OpenMP.initial L D E) := Reaches.refl _
    refine ⟨⟨OpenMP.kept still,?_,?_,?_⟩,⟨?_,?_⟩,?_,?_⟩
    · exact fun w announced => absurd rfl announced
    · exact fun f member => absurd member (Multiset.notMem_zero f)
    · intro w cached
      cases cached
    all_goals exact fun f member => absurd member (Multiset.notMem_zero f)
  exact run.invariant preserved start

end Run
end ToyMtFramework.OpenMP.Announce
