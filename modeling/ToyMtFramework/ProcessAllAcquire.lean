import ToyMtFramework.ProcessAllGroups

/-! `processAll` with modules that have `acquire`. `RunModuleTask` runs `acquire` first, and what was
made with `make_waiting_task` runs the body when the last copy of the `WaitingTaskWithArenaHolder` is
released, by whatever thread. That release enqueues in the arena what then gives the task to the group;
in between the group can be empty. -/
namespace ToyMtFramework.ProcessAll.Acquire
open Activities Transition
open Schedule (Job Wrapper)

variable {L D E : Type}

/-- `holder` stands for all copies of the holder, `enqueued` for what the last of them has enqueued.
Neither is in the group, which is given `acquired`. -/
inductive Frame (L D E : Type) where
  | base (f : ProcessAll.Frame L D E)
  | runModuleAcquire (i : Nat) (w : Wrapper L D) (e : Option E)
  | acquire (i : Nat)
  | holder (i : Nat) (w : Wrapper L D)
  | enqueued (i : Nat) (w : Wrapper L D) (e : Option E)
  | acquired (i : Nat) (w : Wrapper L D) (e : Option E)
  | recycle (i : Nat)

def Frame.group : Frame L D E → Option Nat
  | .base f => f.group
  | .holder _ _ | .enqueued _ _ _ => none
  | .runModuleAcquire i _ _ | .acquire i | .acquired i _ _ | .recycle i => some i

def Frame.owner : Frame L D E → Option Nat
  | .base f => f.group
  | .holder i _ | .enqueued i _ _ => some i
  | .runModuleAcquire i _ _ | .acquire i | .acquired i _ _ | .recycle i => some i

theorem owner_of_group {f : Frame L D E} {g : Nat} (group : f.group = some g) : f.owner = some g := by
  cases f with
  | holder => cases group
  | enqueued => cases group
  | _ => exact group

def executed (hasAcquire : Wrapper L D → Bool) : ProcessAll.Frame L D E → Option (Nat × Wrapper L D)
  | .stream i (.schedule (.execute (.runModule w))) => if hasAcquire w then some (i,w) else none
  | _ => none

def acquiring : ProcessAll.Frame L D E → Option (QueuedTask L D E)
  | .serialTask t => if t.stage = .acquire then some t else none
  | _ => none

section Machine
variable [DecidableEq L] [DecidableEq D]

def pushOr (job : Job L D E) (N : Nat) (sh : Shared L D E) (t : QueuedTask L D E) (f : Frame L D E)
    (later : List (Frame L D E)) : Reaction (Shared L D E) (Frame L D E) :=
  match runQueue job t.wrapper with
  | none => ⟨sh,f :: later,[]⟩
  | some q => ⟨(push N sh q t).shared,later,(push N sh q t).spawned.map .base⟩

/-- The second choice is what the holders have reported when the last of them is released. A call of
`acquire` that throws ends as one that returns does. -/
def react (hasAcquire : Wrapper L D → Bool) (job : Job L D E) (N : Nat) (sh : Shared L D E) :
    Frame L D E → Nat × Option E → Option (Reaction (Shared L D E) (Frame L D E))
  | .base f, choice =>
    match executed hasAcquire f, acquiring f with
    | some (i,w), _ =>
      let e := (sh.streams i).exceptionPtr (.runModule w)
      some (pushOr job N sh ⟨i,w,e,.acquire⟩ (.runModuleAcquire i w e) [])
    | none, some t => (runQueue job t.wrapper).map fun q =>
      ⟨sh,[.runModuleAcquire t.group t.wrapper t.exceptionPtr,.base (.finishedTask t.group q)],[]⟩
    | none, none => (ProcessAll.react job N sh f choice.1).map fun r =>
      ⟨r.shared,r.calls.map .base,r.spawned.map .base⟩
  | .runModuleAcquire i w (some e), _ =>
    some ⟨sh,[.base (.stream i (.schedule (.doneWaiting (.waitingTasks w) (some e))))],[]⟩
  | .runModuleAcquire i w none, _ => some ⟨sh,[.acquire i],[.holder i w]⟩
  | .acquire _, _ => some ⟨sh,[],[]⟩
  | .holder i w, choice => some ⟨sh,[],[.enqueued i w choice.2]⟩
  | .enqueued i w e, _ =>
    some ⟨{sh with handedOver := sh.handedOver || i < sh.main.waited N},[],[.acquired i w e]⟩
  | .acquired i w e, _ =>
    some (pushOr job N sh ⟨i,w,e,.work⟩ (.base (.stream i (.schedule (.runModule w e)))) [.recycle i])
  | .recycle _, _ => some ⟨sh,[],[]⟩

abbrev State (L D E : Type) := Pool (Shared L D E) (Frame L D E)

def busy (sh : Shared L D E) (g : Nat) : Frame L D E → Bool
  | .base f => ProcessAll.busy sh g f
  | f => f.group = some g

def idle (s : State L D E) (g : Nat) : Bool :=
  s.threads.flatten.all fun f => !busy s.shared g f

def blocked (s : State L D E) : Bool :=
  match s.shared.main with
  | .wait g => !idle s g
  | _ => false

def Frame.isProcessAll : Frame L D E → Bool
  | .base f => f.isProcessAll
  | _ => false

def next (hasAcquire : Wrapper L D → Bool) (job : Job L D E) (N : Nat) (s : State L D E)
    (a : Nat × Nat × Option E) : Option (State L D E) :=
  if (s.top a.1).any Frame.isProcessAll && blocked s then none
  else s.step (react hasAcquire job N) a.1 a.2

def initial (L D E : Type) (N : Nat) (source : List Nat) : State L D E :=
  (ProcessAll.initial L D E N source).map .base

/-- `done` is not found set after a pass over the groups in which one of those waited for has got a
task from outside. -/
def settles (sh : Shared L D E) : Frame L D E → Bool
  | .base .processAll =>
    match sh.main with
    | .testDone => !(sh.done && sh.handedOver)
    | _ => true
  | _ => true

def Settled (s : State L D E) (a : Nat × Nat × Option E) : Prop :=
  ∀ f ∈ s.top a.1, settles s.shared f = true

instance (s : State L D E) (a : Nat × Nat × Option E) : Decidable (Settled s a) :=
  inferInstanceAs (Decidable (∀ f ∈ s.top a.1, settles s.shared f = true))

end Machine

section Turns
variable [DecidableEq L] [DecidableEq D] {hasAcquire : Wrapper L D → Bool} {job : Job L D E} {N i : Nat}
  {sh : Shared L D E} {choice : Nat × Option E}

omit [DecidableEq L] [DecidableEq D] in
/-- The frames of a turn belong to the same groups here. -/
theorem turn_base {after : Shared L D E} {calls spawned : List (ProcessAll.Frame L D E)}
    (turn : Turn ProcessAll.Frame.group N i sh ⟨after,calls,spawned⟩) (later : List (Frame L D E))
    (own : ∀ f ∈ later, f.owner = some i) :
    Turn Frame.owner N i sh ⟨after,calls.map .base ++ later,spawned.map .base⟩ := by
  refine ⟨turn.main,turn.lists,turn.queued,?_,turn.handedOver⟩
  intro f member
  rcases List.mem_append.mp (Multiset.mem_coe.mp member) with member | member
  · rcases List.mem_append.mp member with member | member
    · obtain ⟨g,inside,rfl⟩ := List.mem_map.mp member
      exact turn.frames g (Multiset.mem_coe.mpr (List.mem_append_left spawned inside))
    · exact ⟨i,own f member,Or.inl rfl⟩
  · obtain ⟨g,inside,rfl⟩ := List.mem_map.mp member
    exact turn.frames g (Multiset.mem_coe.mpr (List.mem_append_right calls inside))

theorem pushOr_turn {t : QueuedTask L D E} {f : Frame L D E} {later : List (Frame L D E)}
    (group : t.group = i) (here : f.owner = some i) (own : ∀ g ∈ later, g.owner = some i) :
    Turn Frame.owner N i sh (pushOr job N sh t f later) := by
  subst group
  unfold pushOr
  cases runQueue job t.wrapper with
  | none =>
    refine turn_keep rfl (fun _ _ => rfl) rfl rfl fun g member => ?_
    rw [List.append_nil] at member
    rcases List.mem_cons.mp member with rfl | member
    · exact here
    · exact own g member
  | some q =>
    have turn : Turn ProcessAll.Frame.group N t.group sh ⟨(push N sh q t).shared,[],(push N sh q t).spawned⟩ := by
      have pushes : Turn ProcessAll.Frame.group N t.group sh (push N sh q t) := push_turn q t
      refine ⟨pushes.main,pushes.lists,pushes.queued,fun g member => ?_,pushes.handedOver⟩
      exact pushes.frames g (Multiset.mem_coe.mpr (List.mem_append_right _ (Multiset.mem_coe.mp member)))
    exact turn_base turn later own

theorem react_turn {f : Frame L D E} {r : Reaction (Shared L D E) (Frame L D E)} (group : f.group = some i)
    (reacted : react hasAcquire job N sh f choice = some r) : Turn Frame.owner N i sh r := by
  cases f with
  | base f =>
    cases executes : executed hasAcquire f with
    | some found =>
      obtain ⟨j,w⟩ := found
      simp only [react,executes] at reacted
      have own : f.group = some j := by
        unfold executed at executes
        split at executes
        · split at executes <;> cases executes
          rfl
        · cases executes
      obtain rfl : j = i := Option.some.inj (own.symm.trans group)
      cases reacted
      exact pushOr_turn rfl rfl (by simp)
    | none =>
      cases acquires : acquiring f with
      | some t =>
        simp only [react,executes,acquires] at reacted
        obtain ⟨q,_,rfl⟩ := Option.map_eq_some_iff.mp reacted
        have own : f.group = some t.group := by
          unfold acquiring at acquires
          split at acquires
          · split at acquires <;> cases acquires
            rfl
          · cases acquires
        obtain rfl : t.group = i := Option.some.inj (own.symm.trans group)
        exact turn_keep rfl (fun _ _ => rfl) rfl rfl (by simp [Frame.owner,ProcessAll.Frame.group])
      | none =>
        simp only [react,executes,acquires] at reacted
        obtain ⟨inner,made,rfl⟩ := Option.map_eq_some_iff.mp reacted
        have turn := turn_base (ProcessAll.react_turn group made) [] (by simp)
        rwa [List.append_nil] at turn
  | runModuleAcquire j w e =>
    obtain rfl : j = i := Option.some.inj group
    cases e with
    | none =>
      cases reacted
      exact turn_keep rfl (fun _ _ => rfl) rfl rfl (by simp [Frame.owner])
    | some e =>
      cases reacted
      exact turn_keep rfl (fun _ _ => rfl) rfl rfl (by simp [Frame.owner,ProcessAll.Frame.group])
  | acquire j =>
    cases reacted
    exact turn_keep rfl (fun _ _ => rfl) rfl rfl (by simp)
  | holder => cases group
  | enqueued => cases group
  | acquired j w e =>
    obtain rfl : j = i := Option.some.inj group
    cases reacted
    exact pushOr_turn rfl rfl (by simp [Frame.owner])
  | recycle j =>
    cases reacted
    exact turn_keep rfl (fun _ _ => rfl) rfl rfl (by simp)

end Turns

section Invariant

def named : Main E → List Nat
  | .launch ns => ns
  | .copyHolder n ns | .destroyHolder n ns => n :: ns
  | _ => []

/-- The groups that have been waited for in this pass have nothing to do. -/
structure Watched (N : Nat) (sh : Shared L D E) (bag : Multiset (Frame L D E)) : Prop where
  frames : ∀ f ∈ bag, ∀ g, f.owner = some g → g < N
  queued : ∀ q, ∀ t ∈ (sh.queues q).tasks, t.group < N
  named : ∀ n ∈ named sh.main, n < N
  waited : sh.handedOver = false → ∀ g < sh.main.waited N, ∀ f ∈ bag, busy sh g f = false

variable {hasAcquire : Wrapper L D → Bool} {job : Job L D E} {N : Nat} {sh : Shared L D E}
  {rest : Multiset (Frame L D E)} {choice : Nat × Option E}

theorem busy_eq {after : Shared L D E} {g : Nat} (lists : (after.streams g).list = (sh.streams g).list)
    (f : Frame L D E) : busy after g f = busy sh g f := by
  cases f with
  | base f => exact ProcessAll.busy_eq lists f
  | _ => rfl

theorem busy_elsewhere {g : Nat} {f : Frame L D E} (other : f.group ≠ some g) : busy sh g f = false := by
  cases f with
  | base f => simp [busy,ProcessAll.busy,show f.group ≠ some g from other]
  | _ => simpa [busy] using other

/-- A frame that acts is a task that is not finished. -/
theorem react_busy [DecidableEq L] [DecidableEq D] {f : Frame L D E} {i : Nat}
    {r : Reaction (Shared L D E) (Frame L D E)} (group : f.group = some i)
    (reacted : react hasAcquire job N sh f choice = some r) : busy sh i f = true := by
  cases f with
  | base f =>
    have unparked : parked sh f = false := by
      cases f with
      | stream j f =>
        cases f with
        | schedule f =>
          cases f with
          | node l t =>
            simp only [react,executed,acquiring] at reacted
            obtain ⟨inner,made,_⟩ := Option.map_eq_some_iff.mp reacted
            exact react_unparked made
          | _ => rfl
        | _ => rfl
      | _ => rfl
    simp [busy,ProcessAll.busy,show f.group = some i from group,unparked]
  | _ => simpa [busy] using group

section Steps
variable [DecidableEq L] [DecidableEq D]

/-- A frame of a group acts: the group has not been waited for. -/
theorem Watched.turn {f : Frame L D E} {i : Nat} {r : Reaction (Shared L D E) (Frame L D E)}
    (watched : Watched N sh (f ::ₘ rest)) (group : f.group = some i)
    (reacted : react hasAcquire job N sh f choice = some r) : Watched N r.shared (r.frames + rest) := by
  have turn := react_turn group reacted
  have working := react_busy group reacted
  have bound := watched.frames f (Multiset.mem_cons_self f rest) i (owner_of_group group)
  have later (none : sh.handedOver = false) : sh.main.waited N ≤ i := by
    by_contra before
    have rests := watched.waited none i (by omega) f (Multiset.mem_cons_self f rest)
    rw [working] at rests
    cases rests
  constructor
  · intro h member g inside
    rcases Multiset.mem_add.mp member with new | old
    · obtain ⟨k,same,own | ⟨⟨q,t,queued,rfl⟩,_⟩⟩ := turn.frames h new
      · rw [inside] at same
        obtain rfl := Option.some.inj same
        omega
      · rw [inside] at same
        obtain rfl := Option.some.inj same
        exact watched.queued q t queued
    · exact watched.frames h (Multiset.mem_cons_of_mem old) g inside
  · intro q t member
    rcases turn.queued q t member with own | ⟨p,old⟩
    · rwa [own]
    · exact watched.queued p t old
  · rw [turn.main]
    exact watched.named
  · intro none g before h member
    rw [turn.main] at before
    have was := turn.handedOver none
    have past := later was
    rcases Multiset.mem_add.mp member with new | old
    · obtain ⟨k,same,place⟩ := turn.frames h new
      refine busy_elsewhere fun inside => ?_
      obtain rfl := Option.some.inj (same.symm.trans (owner_of_group inside))
      rcases place with own | ⟨_,waited⟩
      · omega
      · have outside := waited none
        omega
    · rw [busy_eq (turn.lists g (by omega))]
      exact watched.waited was g before h (Multiset.mem_cons_of_mem old)

omit [DecidableEq L] [DecidableEq D] in
/-- A step outside the groups, after which the frames in `frames` have come in. -/
theorem Watched.outside {f : Frame L D E} (watched : Watched N sh (f ::ₘ rest)) {after : Shared L D E}
    {frames : Multiset (Frame L D E)} (streams : after.streams = sh.streams)
    (queues : after.queues = sh.queues)
    (new : ∀ h ∈ frames, ∀ g, h.owner = some g → g < N)
    (names : ∀ n ∈ Acquire.named after.main, n ∈ Acquire.named sh.main)
    (waited : after.handedOver = false → ∀ g < after.main.waited N,
      (∀ h ∈ frames, h.group ≠ some g) ∧ ∀ h ∈ rest, busy sh g h = false) :
    Watched N after (frames + rest) := by
  constructor
  · intro h member g group
    rcases Multiset.mem_add.mp member with young | old
    · exact new h young g group
    · exact watched.frames h (Multiset.mem_cons_of_mem old) g group
  · rw [queues]
    exact watched.queued
  · intro n member
    exact watched.named n (names n member)
  · intro none g before h member
    rcases Multiset.mem_add.mp member with young | old
    · exact busy_elsewhere ((waited none g before).1 h young)
    · have same : (after.streams g).list = (sh.streams g).list := by rw [streams]
      rw [busy_eq same]
      exact (waited none g before).2 h old

omit [DecidableEq L] [DecidableEq D] in
/-- `processAll` goes on; it has waited for the group if it is about to. -/
theorem Watched.processAll {r : Reaction (Shared L D E) (ProcessAll.Frame L D E)}
    (watched : Watched N sh (.base .processAll ::ₘ rest))
    (waited : ∀ g, sh.main = .wait g → ∀ f ∈ rest, busy sh g f = false)
    (reacted : ProcessAll.processAll N sh = some r) :
    Watched N r.shared (↑(r.calls.map Frame.base ++ r.spawned.map Frame.base) + rest) := by
  have before (none : sh.handedOver = false) (g : Nat) (bound : g < sh.main.waited N) :
      ∀ f ∈ rest, busy sh g f = false := fun f member =>
    watched.waited none g bound f (Multiset.mem_cons_of_mem member)
  have here (g : Nat) : (Frame.base .processAll : Frame L D E).group ≠ some g := Option.some_ne_none g |>.symm
  unfold ProcessAll.processAll at reacted
  split at reacted
  · cases reacted
    apply watched.outside <;> simp [Acquire.named,Main.waited,here,Frame.owner,ProcessAll.Frame.group]
  · rename_i n ns at_main
    cases reacted
    apply watched.outside <;>
      simp [at_main,Acquire.named,Main.waited,Shared.hold,Frame.owner,ProcessAll.Frame.group]
  · rename_i n ns at_main
    cases reacted
    have bound : n < N := watched.named n (by rw [at_main]; exact List.mem_cons_self)
    apply watched.outside <;>
      simp [at_main,Acquire.named,Main.waited,Shared.hold,Frame.owner,ProcessAll.Frame.group,bound]
  · rename_i n ns at_main
    cases reacted
    have bound : n < N := watched.named n (by rw [at_main]; exact List.mem_cons_self)
    apply watched.outside
    case new =>
      intro f member g owner
      rcases List.mem_cons.mp (Multiset.mem_coe.mp member) with rfl | last
      · cases owner
      · obtain ⟨h,inside,rfl⟩ := List.mem_map.mp last
        have same : some g = some n := owner.symm.trans (run_group inside)
        rwa [Option.some.inj same]
    all_goals simp +contextual [at_main,Acquire.named,Main.waited,Shared.drop]
  · rename_i g at_main
    cases reacted
    have passed (none : sh.handedOver = false) (k : Nat) (bound : k ≤ g) : ∀ f ∈ rest, busy sh k f = false := by
      by_cases last : k = g
      · subst k
        exact waited g at_main
      · exact before none k (by simp only [at_main,Main.waited]; omega)
    apply watched.outside
    case waited =>
      intro none k bound
      refine ⟨by simp [here],passed none k ?_⟩
      dsimp only at bound
      split at bound <;> simp only [Main.waited] at bound <;> omega
    case new => simp [Frame.owner,ProcessAll.Frame.group]
    all_goals first | rfl | (split <;> simp [Acquire.named])
  · rename_i at_main
    split at reacted
    · cases reacted
      apply watched.outside
      case waited =>
        intro none k bound
        exact ⟨by simp,before none k (by simpa [at_main,Main.waited] using bound)⟩
      all_goals simp [Acquire.named]
    · cases reacted
      apply watched.outside <;> simp [Acquire.named,Main.waited,Frame.owner,ProcessAll.Frame.group]
  · cases reacted

theorem Watched.next {s t : State L D E} {a : Nat × Nat × Option E} (watched : Watched N s.shared s.bag)
    (taken : next hasAcquire job N s a = some t) : Watched N t.shared t.bag := by
  unfold Acquire.next at taken
  split at taken
  · cases taken
  · rename_i free
    obtain ⟨f,r,rest,reacted,shared,before,after,top⟩ := Pool.step_bag taken
    have watches := watched
    rw [before] at watches
    rw [shared,after]
    have waited (inside : f.isProcessAll = true) (g : Nat) (at_main : s.shared.main = .wait g)
        (h : Frame L D E) (member : h ∈ rest) : busy s.shared g h = false := by
      have returns : blocked s = false := by simpa [top,inside] using free
      simp only [blocked,at_main] at returns
      have rests : idle s g = true := by simpa using returns
      have present : h ∈ s.bag := by
        rw [before]
        exact Multiset.mem_cons_of_mem member
      simpa using List.all_eq_true.mp rests h present
    cases f with
    | base f =>
      cases f with
      | processAll =>
        simp only [react,executed,acquiring] at reacted
        obtain ⟨inner,made,rfl⟩ := Option.map_eq_some_iff.mp reacted
        exact watches.processAll (waited rfl) made
      | _ => exact watches.turn rfl reacted
    | holder i w =>
      have bound := watches.frames _ (Multiset.mem_cons_self _ rest) i rfl
      cases reacted
      apply watches.outside
      case new => simpa [Frame.owner] using bound
      case waited =>
        intro none g before
        exact ⟨by simp [Frame.group],fun h member =>
          watches.waited none g before h (Multiset.mem_cons_of_mem member)⟩
      all_goals simp
    | enqueued i w e =>
      have bound := watches.frames _ (Multiset.mem_cons_self _ rest) i rfl
      cases reacted
      have given (none : (s.shared.handedOver || decide (i < s.shared.main.waited N)) = false) :
          s.shared.handedOver = false ∧ s.shared.main.waited N ≤ i := by
        simpa using none
      apply watches.outside
      case new => simpa [Frame.owner] using bound
      case waited =>
        intro none g before
        obtain ⟨was,later⟩ := given none
        have before : g < s.shared.main.waited N := before
        refine ⟨?_,fun h member => watches.waited was g before h (Multiset.mem_cons_of_mem member)⟩
        simp [Frame.group]
        omega
      all_goals simp
    | _ => exact watches.turn rfl reacted

omit [DecidableEq L] [DecidableEq D] in
theorem initial_watched (some : 0 < N) (source : List Nat) :
    Watched N (initial L D E N source).shared (initial L D E N source).bag := by
  constructor
  · simp [initial,ProcessAll.initial,Pool.map,Pool.bag,Frame.owner,ProcessAll.Frame.group]
  · simp [initial,ProcessAll.initial,Pool.map]
  · intro n member
    rcases List.mem_append.mp member with member | member
    · rw [List.mem_range'_1] at member
      omega
    · rw [List.mem_singleton.mp member]
      exact some
  · simp [initial,ProcessAll.initial,Pool.map,Main.waited]

omit [DecidableEq L] [DecidableEq D] in
/-- The loop is left at its test. -/
theorem processAll_exits {r : Reaction (Shared L D E) (ProcessAll.Frame L D E)}
    (settled : settles sh (Frame.base (.processAll : ProcessAll.Frame L D E)) = true)
    (reacted : ProcessAll.processAll N sh = some r) {e : Option E} (exits : r.shared.main = .returned e) :
    r.shared.handedOver = false := by
  unfold ProcessAll.processAll at reacted
  split at reacted
  case h_6 at_main =>
    split at reacted
    · rename_i quiet
      cases reacted
      simpa [settles,at_main,quiet] using settled
    · cases reacted
      cases exits
  case h_5 =>
    cases reacted
    dsimp only at exits
    split at exits <;> cases exits
  case h_7 => cases reacted
  all_goals
    cases reacted
    cases exits

theorem exits_settled {s t : State L D E} {a : Nat × Nat × Option E} (settled : Settled s a)
    (taken : next hasAcquire job N s a = some t) {e : Option E} (going : s.shared.main ≠ .returned e)
    (exits : t.shared.main = .returned e) : t.shared.handedOver = false := by
  unfold Acquire.next at taken
  split at taken
  · cases taken
  · obtain ⟨f,r,rest,reacted,shared,_,_,top⟩ := Pool.step_bag taken
    rw [shared] at exits ⊢
    cases group : f.group with
    | some i =>
      rw [(react_turn group reacted).main] at exits
      exact absurd exits going
    | none =>
      cases f with
      | base f =>
        cases f with
        | processAll =>
          simp only [react,executed,acquiring] at reacted
          obtain ⟨inner,made,rfl⟩ := Option.map_eq_some_iff.mp reacted
          exact processAll_exits (settled _ top) made exits
        | _ => cases group
      | holder i w =>
        cases reacted
        exact absurd exits going
      | enqueued i w x =>
        cases reacted
        exact absurd exits going
      | _ => cases group

/-- If `done` is not found set after a pass in which a group that was waited for got a task from
outside, no group has an unfinished task when the loop is left. -/
theorem processAll_returns_idle (hasAcquire : Wrapper L D → Bool) (job : Job L D E) (N : Nat)
    (source : List Nat) (some : 0 < N) (s t : State L D E) (a : Nat × Nat × Option E)
    (run : Reachable (next hasAcquire job N) (initial L D E N source) s) (settled : Settled s a)
    (taken : next hasAcquire job N s a = Option.some t) (exceptPtr : Option E)
    (going : s.shared.main ≠ .returned exceptPtr) (exits : t.shared.main = .returned exceptPtr) :
    ∀ g < N, idle t g = true := by
  have preserved (u : State L D E) (b : Nat × Nat × Option E) (v : State L D E)
      (watched : Watched N u.shared u.bag) (_ : True) (moved : next hasAcquire job N u b = Option.some v) :
      Watched N v.shared v.bag := watched.next moved
  have start : Watched N (initial L D E N source).shared (initial L D E N source).bag :=
    initial_watched some source
  have watched := (run.invariant preserved start).next taken
  have none := exits_settled settled taken going exits
  intro g bound
  refine List.all_eq_true.mpr fun f member => ?_
  have rests := watched.waited none g (by simpa [exits,Main.waited] using bound) f member
  simp [rests]

/-- Turns in a row as in `ProcessAll.turns`; the holders report nothing. -/
def turns (threads : List (Nat × Nat)) : List (Nat × Nat × Option E) :=
  (ProcessAll.turns threads).map fun a => (a.1,a.2,none)

def oneGet : Job Nat Unit Unit where
  filters := [⟨0,.threadSafeBetweenInstances,[(1,())],[],fun _ _ _ => ⟨[],true,none⟩⟩]
  producers := [⟨1,.threadSafeBetweenInstances,[],[()],fun _ _ _ => ⟨[((),7)],true,none⟩⟩]
  paths := [[0]]

def acquires : Wrapper Nat Unit → Bool
  | .producer _ _ => true
  | .filter _ => false

/-- The first pass finds the group empty while the holder of the producer is kept; the task is given to
the group then, and the loop waits for it in the next pass. -/
def secondPass : List (Nat × Nat × Option Unit) :=
  turns [(22,0),(3,4),(7,0),(1,5),(1,6),(1,0),(5,7),(3,3),(5,8),(3,2),(3,9),(3,1),(2,10),(7,11),(2,12),(1,0)]

set_option maxRecDepth 4096 in
theorem processAll_returns_idle_secondPass : ∃ s t,
    execute (next acquires oneGet 1) (initial Nat Unit Unit 1 [0]) secondPass = some s ∧
      next acquires oneGet 1 s (0,0,none) = some t ∧ t.shared.main = .returned none ∧ ∀ g < 1, idle t g = true := by
  obtain ⟨s,t,ran,settled,taken,going,exits⟩ : ∃ s t,
      execute (next acquires oneGet 1) (initial Nat Unit Unit 1 [0]) secondPass = some s ∧
      (Settled s (0,0,none) : Prop) ∧ next acquires oneGet 1 s (0,0,none) = some t ∧
      s.shared.main = .testDone ∧ t.shared.main = .returned none :=
    ⟨_,_,rfl,by decide,rfl,rfl,rfl⟩
  refine ⟨s,t,ran,taken,exits,?_⟩
  exact processAll_returns_idle acquires oneGet 1 [0] (by decide) s t (0,0,none) (execute_reachable _ ran)
    settled taken none (by rw [going]; simp) exits

/-- The loop can be left while a group has an unfinished task. -/
def LeavesBusy (hasAcquire : Wrapper L D → Bool) (job : Job L D E) (N : Nat) (source : List Nat) : Prop :=
  ∃ s t a, Reachable (next hasAcquire job N) (initial L D E N source) s ∧
    next hasAcquire job N s a = some t ∧ s.shared.main = .testDone ∧
    t.shared.main = .returned none ∧ ∃ g < N, idle t g = false

/-- One path with one filter that is not thread safe. -/
def unsafePath : Job Nat Unit Unit where
  filters := [⟨0,.threadUnsafe,[],[],fun _ _ _ => ⟨[],true,none⟩⟩]
  producers := []
  paths := [[0]]

/-- The filter of stream 0 is queued behind that of stream 1. The loop has waited for group 0,
which is empty then, when stream 1 spawns that filter in it; it finds `done` set by `lastTask`,
which is yet to be deleted in group 0. -/
def refilledRun : List (Nat × Nat × Option Unit) :=
  turns [(39,0),(1,3),(1,6),(1,0),(4,7),(3,2),(1,7),(3,8),(3,1),(2,10),(4,11),(1,0),(4,9),(3,5),(1,9),
    (3,12),(3,4),(2,13),(4,14),(1,15)]

/-- The loop has waited for the only group when the holder is released; all that follows is executed
before `done` is tested, but for the deletion of `lastTask`. -/
def releasedRun : List (Nat × Nat × Option Unit) :=
  turns [(22,0),(3,4),(7,0),(1,5),(1,6),(5,7),(3,3),(5,8),(3,2),(3,9),(3,1),(2,10),(7,11),(1,12)]

set_option maxRecDepth 4096 in
theorem loop_left_busy : LeavesBusy (fun _ => false) unsafePath 2 [0,1] ∧ LeavesBusy acquires oneGet 1 [0] := by
  constructor
  · obtain ⟨s,t,ran,taken,at_test,exits,left⟩ : ∃ s t,
        execute (next (fun _ => false) unsafePath 2) (initial Nat Unit Unit 2 [0,1]) refilledRun = some s ∧
        next (fun _ => false) unsafePath 2 s (0,0,none) = some t ∧ s.shared.main = .testDone ∧
        t.shared.main = .returned none ∧ idle t 0 = false := ⟨_,_,rfl,rfl,rfl,rfl,rfl⟩
    exact ⟨s,t,_,execute_reachable _ ran,taken,at_test,exits,0,by decide,left⟩
  · obtain ⟨s,t,ran,taken,at_test,exits,left⟩ : ∃ s t,
        execute (next acquires oneGet 1) (initial Nat Unit Unit 1 [0]) releasedRun = some s ∧
        next acquires oneGet 1 s (0,0,none) = some t ∧ s.shared.main = .testDone ∧
        t.shared.main = .returned none ∧ idle t 0 = false := ⟨_,_,rfl,rfl,rfl,rfl,rfl⟩
    exact ⟨s,t,_,execute_reachable _ ran,taken,at_test,exits,0,by decide,left⟩

end Steps
end Invariant
end ToyMtFramework.ProcessAll.Acquire
