import ToyMtFramework.OpenMPAnnounce
import ToyMtFramework.OpenMPGetWork
import Mathlib.Data.Multiset.Bind

/-! What the frames with the calls of `add` and `announce` can do, and what that is for the modules
alone. Seen without the lists, where nodes and calls are apart, each step is one of the frames of
`OpenMP` or does nothing. -/
namespace ToyMtFramework.OpenMP.Announce
open Activities Transition

variable {L D E : Type}

/-- The frame has nothing to do with waiting lists, regions and queues. -/
def Plain (sh : Shared L D E) : Stage L D E → Prop
  | .doWorkAsync w _ => (sh.list w).waiting = false
  | .startWork w => sh.workStarted w = true
  | .get _ target _ _ => (sh.cache target).wasCached = true
  | .node _ _ | .queued _ _ | .doneWaiting _ _ => False
  | _ => True

/-- The call of `doWorkAsync` that `announce` is part of goes on when it has returned. -/
def resume (r : Option Nat) (w : ModuleWrapper L D) (after : Bool) : List (Frame L D E) :=
  if after then [⟨r,.startWork w⟩] else []

def node (w : ModuleWrapper L D) (t : TaskId L D) : Frame L D E := ⟨none,.node w t⟩

def ListFrame.view (f : ListFrame L D E) : List (Frame L D E) :=
  match f.stage with
  | .act stage => [⟨f.region,stage⟩]
  | .add w t => [⟨f.region,.startWork w⟩,node w t]
  | .recheck w => [⟨f.region,.startWork w⟩]
  | .announce w after => resume f.region w after
  | .walk w nodes after | .look w nodes after => nodes.map (node w) ++ resume f.region w after

def ListShared.view (sh : ListShared L D E) (bag : Multiset (ListFrame L D E)) : Multiset (Frame L D E) :=
  (bag.bind fun f => (f.view : Multiset (Frame L D E))) + ↑(sh.heads.map fun x => node (E := E) x.1 x.2)

section Machine
variable [DecidableEq L] [DecidableEq D]

/-- `q` is the region of the thread that takes a task out of a queue. -/
inductive Moves (job : Job L D E) (sh : ListShared L D E) (q : Option Nat) :
    ListFrame L D E → Reaction (ListShared L D E) (ListFrame L D E) → Prop
  | plain (r : Option Nat) (stage : Stage L D E) (reaction : Reaction (Shared L D E) (Frame L D E))
      (plain : Plain sh.base stage) (reacts : Reacts job sh.base ⟨r,stage⟩ reaction) :
      Moves job sh q ⟨r,.act stage⟩
        ⟨{sh with base := reaction.shared},reaction.calls.map lift,reaction.spawned.map lift⟩
  | doWorkAsync (r : Option Nat) (w : ModuleWrapper L D) (t : TaskId L D)
      (waiting : (sh.base.list w).waiting = true) :
      Moves job sh q ⟨r,.act (.doWorkAsync w t)⟩ ⟨sh,[⟨r,.add w t⟩],[]⟩
  | startWork (r : Option Nat) (w : ModuleWrapper L D) (started : sh.base.workStarted w = false) :
      Moves job sh q ⟨r,.act (.startWork w)⟩ ⟨{sh with base := sh.base.start w},
        [⟨r,.act (.prefetch w (job.getters w))⟩],[]⟩
  | queued (r : Option Nat) (w : ModuleWrapper L D) (e : Option E) (queue : Queue L D) :
      Moves job sh q ⟨r,.act (.queued w e)⟩ ⟨{sh with base := sh.base.choose queue true},
        [⟨q,.act (.runModule w e)⟩,⟨q,.act (.finishedTask queue)⟩],[]⟩
  | parallel (r : Option Nat) (w target : ModuleWrapper L D) (found : Nat)
      (next : Except E Int → Program L D E) (missing : (sh.base.cache target).wasCached = false) :
      Moves job sh q ⟨r,.act (.get w target found next)⟩
        ⟨{sh with
            base := {sh.base.hold (.doneTask sh.base.regions target) with regions := sh.base.regions + 1}
            nest := Function.update sh.nest sh.base.regions (sh.base.regions :: sh.enclosing r)},
          [⟨some sh.base.regions,.act (.doWorkAsync target (.doneTask sh.base.regions target))⟩,
            ⟨r,.act (.regionEnd sh.base.regions w target found next)⟩],[]⟩
  | doneWaiting (r : Option Nat) (w : ModuleWrapper L D) (e : Option E) :
      Moves job sh q ⟨r,.act (.doneWaiting w e)⟩
        ⟨{sh with base := sh.base.doneWaiting w e},[⟨r,.announce w false⟩],[]⟩
  | addFirst (r : Option Nat) (w : ModuleWrapper L D) (t : TaskId L D) (empty : sh.nodes w = []) :
      Moves job sh q ⟨r,.add w t⟩ ⟨{sh with heads := (w,t) :: sh.heads},[⟨r,.recheck w⟩],[]⟩
  | add (r : Option Nat) (w : ModuleWrapper L D) (t : TaskId L D) (nonempty : sh.nodes w ≠ []) :
      Moves job sh q ⟨r,.add w t⟩ ⟨{sh with heads := (w,t) :: sh.heads},[⟨r,.act (.startWork w)⟩],[]⟩
  | recheckWaiting (r : Option Nat) (w : ModuleWrapper L D) (waiting : (sh.base.list w).waiting = true) :
      Moves job sh q ⟨r,.recheck w⟩ ⟨sh,[⟨r,.act (.startWork w)⟩],[]⟩
  | recheck (r : Option Nat) (w : ModuleWrapper L D) (told : (sh.base.list w).waiting = false) :
      Moves job sh q ⟨r,.recheck w⟩ ⟨sh,[⟨r,.announce w true⟩],[]⟩
  | announce (r : Option Nat) (w : ModuleWrapper L D) (after : Bool) :
      Moves job sh q ⟨r,.announce w after⟩
        ⟨{sh with heads := sh.heads.filter fun node => node.1 ≠ w},[⟨r,.walk w (sh.nodes w) after⟩],[]⟩
  | walked (r : Option Nat) (w : ModuleWrapper L D) : Moves job sh q ⟨r,.walk w [] false⟩ ⟨sh,[],[]⟩
  | walkedOn (r : Option Nat) (w : ModuleWrapper L D) :
      Moves job sh q ⟨r,.walk w [] true⟩ ⟨sh,[⟨r,.act (.startWork w)⟩],[]⟩
  | walk (r : Option Nat) (w : ModuleWrapper L D) (t : TaskId L D) (nodes : List (TaskId L D)) (after : Bool) :
      Moves job sh q ⟨r,.walk w (t :: nodes) after⟩
        ⟨sh,[⟨r,.act (.doneWaitingTask t (sh.base.list w).exceptionPtr)⟩,⟨r,.look w nodes after⟩],[]⟩
  | look (r : Option Nat) (w : ModuleWrapper L D) (nodes : List (TaskId L D)) (after : Bool) :
      Moves job sh q ⟨r,.look w nodes after⟩ ⟨sh,[⟨r,.walk w nodes after⟩],[]⟩

variable {job : Job L D E} {sh : ListShared L D E} {f : ListFrame L D E} {choice : Choice}
  {r : Reaction (ListShared L D E) (ListFrame L D E)}

omit [DecidableEq L] [DecidableEq D] in
theorem after_still (sh : ListShared L D E) (region : Option Nat) {base : Shared L D E}
    (same : base.regions = sh.base.regions) : sh.after region base = {sh with base} := by
  rw [ListShared.after,if_pos same]

theorem plain_after {region : Option Nat} {stage : Stage L D E}
    {reaction : Reaction (Shared L D E) (Frame L D E)} (plain : Plain sh.base stage)
    (reacts : Reacts job sh.base ⟨region,stage⟩ reaction) : sh.adds stage = none ∧ announcement region stage = [] ∧
      sh.after region reaction.shared = {sh with base := reaction.shared} := by
  cases reacts with
  | add | parallel => simp_all [Plain]
  | addLate _ w t told => exact ⟨by simp [ListShared.adds,told],rfl,after_still sh region rfl⟩
  | startWork => simp_all [Plain]
  | node | queued | doneWaiting => cases plain
  | get _ w target label product next known =>
    obtain ⟨count,calls,callers,same⟩ := beginGet_eq job sh.base w
    exact ⟨rfl,rfl,after_still sh region (by simp only [same])⟩
  | _ => exact ⟨rfl,rfl,after_still sh region rfl⟩

theorem react_act {region : Option Nat} {stage : Stage L D E}
    (reacted : react job sh ⟨region,.act stage⟩ choice = some r) : ∃ reaction,
      OpenMP.react job sh.base ⟨region,stage⟩ choice = some reaction ∧ r = match sh.adds stage with
        | some (w,t) => ⟨sh,[⟨region,.add w t⟩],[]⟩
        | none => ⟨sh.after region reaction.shared,
          reaction.calls.map lift ++ announcement region stage,reaction.spawned.map lift⟩ := by
  unfold react at reacted
  split at reacted
  · cases reacted
  · rename_i same
    cases same
    obtain ⟨reaction,acted,same⟩ := Option.map_eq_some_iff.mp reacted
    exact ⟨reaction,acted,same.symm⟩
  all_goals
    rename_i same
    cases same

theorem moves_plain {region : Option Nat} {stage : Stage L D E} (plain : Plain sh.base stage)
    (reacted : react job sh ⟨region,.act stage⟩ choice = some r) :
    Moves job sh choice.region ⟨region,.act stage⟩ r := by
  obtain ⟨reaction,acted,rfl⟩ := react_act reacted
  have reacts := react_reacts acted
  obtain ⟨adds,nothing,after⟩ := plain_after plain reacts
  rw [adds,nothing,after]
  simp only [List.append_nil]
  exact .plain region stage reaction plain reacts

theorem react_moves (reacted : react job sh f choice = some r) : Moves job sh choice.region f r := by
  obtain ⟨region,stage⟩ := f
  cases stage with
  | act stage =>
    cases stage with
    | node w t => cases reacted
    | queued w e =>
      obtain ⟨reaction,acted,rfl⟩ := react_act reacted
      simp only [OpenMP.react] at acted
      split at acted
      · cases acted
      · split at acted <;> cases acted
        simp only [ListShared.adds]
        rw [after_still sh region (by rfl)]
        exact .queued region w e _
    | doWorkAsync w t =>
      cases waiting : (sh.base.list w).waiting with
      | false => exact moves_plain waiting reacted
      | true =>
        obtain ⟨reaction,acted,rfl⟩ := react_act reacted
        simp only [ListShared.adds,waiting,if_true]
        exact .doWorkAsync region w t waiting
    | startWork w =>
      cases started : sh.base.workStarted w with
      | true => exact moves_plain started reacted
      | false =>
        obtain ⟨reaction,acted,rfl⟩ := react_act reacted
        simp only [OpenMP.react,started,Bool.false_eq_true,if_false,Option.some.injEq] at acted
        subst acted
        simp only [ListShared.adds]
        rw [after_still sh region (by rfl)]
        exact .startWork region w started
    | get w target found next =>
      cases cached : (sh.base.cache target).wasCached with
      | true => exact moves_plain cached reacted
      | false =>
        obtain ⟨reaction,acted,rfl⟩ := react_act reacted
        simp only [OpenMP.react,cached,Bool.false_eq_true,if_false,Option.some.injEq] at acted
        subst acted
        simp only [ListShared.adds,ListShared.after,if_neg (Nat.succ_ne_self sh.base.regions)]
        exact .parallel region w target found next cached
    | doneWaiting w e =>
      obtain ⟨reaction,acted,rfl⟩ := react_act reacted
      cases acted
      simp only [ListShared.adds]
      rw [after_still sh region (by rfl)]
      exact .doneWaiting region w e
    | _ => exact moves_plain trivial reacted
  | add w t =>
    cases reacted
    by_cases empty : sh.nodes w = []
    · rw [if_pos empty]
      exact .addFirst region w t empty
    · rw [if_neg empty]
      exact .add region w t empty
  | recheck w =>
    cases reacted
    cases waiting : (sh.base.list w).waiting with
    | true => exact .recheckWaiting region w waiting
    | false => exact .recheck region w waiting
  | announce w after =>
    cases reacted
    exact .announce region w after
  | walk w nodes after =>
    cases nodes with
    | nil =>
      cases reacted
      cases after with
      | true => exact .walkedOn region w
      | false => exact .walked region w
    | cons t nodes =>
      cases reacted
      exact .walk region w t nodes after
  | look w nodes after =>
    cases reacted
    exact .look region w nodes after

omit [DecidableEq L] [DecidableEq D] in
theorem view_lift (fs : List (Frame L D E)) : (fs.map lift).flatMap ListFrame.view = fs := by
  induction fs with
  | nil => rfl
  | cons f fs ih =>
    rw [List.map_cons,List.flatMap_cons,ih]
    rfl

omit [DecidableEq L] [DecidableEq D] in
theorem view_frames (sh : ListShared L D E) (fs : List (ListFrame L D E)) (rest : Multiset (ListFrame L D E)) :
    sh.view (↑fs + rest) = ↑(fs.flatMap ListFrame.view) + sh.view rest := by
  rw [ListShared.view,Multiset.add_bind,Multiset.coe_bind,add_assoc]
  rfl

omit [DecidableEq L] [DecidableEq D] in
theorem view_cons (sh : ListShared L D E) (f : ListFrame L D E) (rest : Multiset (ListFrame L D E)) :
    sh.view (f ::ₘ rest) = ↑f.view + sh.view rest := by
  rw [ListShared.view,Multiset.cons_bind,add_assoc]
  rfl

omit [DecidableEq L] [DecidableEq D] in
theorem mem_view {bag : Multiset (ListFrame L D E)} {g : Frame L D E} :
    g ∈ sh.view bag ↔ (∃ f ∈ bag, g ∈ f.view) ∨ ∃ x ∈ sh.heads, node x.1 x.2 = g := by
  simp [ListShared.view]

omit [DecidableEq L] [DecidableEq D] in
theorem view_added (sh : ListShared L D E) (w : ModuleWrapper L D) (t : TaskId L D)
    (bag : Multiset (ListFrame L D E)) :
    ListShared.view {sh with heads := (w,t) :: sh.heads} bag = node w t ::ₘ sh.view bag := by
  rw [ListShared.view,List.map_cons,← Multiset.cons_coe,Multiset.add_cons]
  rfl

theorem view_taken (sh : ListShared L D E) (w : ModuleWrapper L D) (bag : Multiset (ListFrame L D E)) :
    (((sh.nodes w).map (node w) : List (Frame L D E)) : Multiset (Frame L D E)) + ListShared.view {sh with heads := sh.heads.filter fun x => x.1 ≠ w} bag =
      sh.view bag := by
  have own : (sh.nodes w).map (node (E := E) w) =
      (sh.heads.filter fun x => x.1 = w).map fun x => node (E := E) x.1 x.2 := by
    rw [ListShared.nodes,List.map_map]
    apply List.map_congr_left
    intro x member
    have same : x.1 = w := by simpa using (List.mem_filter.mp member).2
    rw [Function.comp_apply,same]
  have split :
      (sh.heads.filter (fun x => x.1 = w) ++ sh.heads.filter (fun x => x.1 ≠ w)).Perm sh.heads := by
    simpa using List.filter_append_perm (fun x => decide (x.1 = w)) sh.heads
  rw [own,ListShared.view,ListShared.view,add_left_comm,Multiset.coe_add,← List.map_append,
    Multiset.coe_eq_coe.mpr (split.map _)]

/-- The modules do what a frame of `OpenMP` does, or a node only changes its place. -/
inductive Seen (job : Job L D E) (sh : Shared L D E) (f : ListFrame L D E) (view : Multiset (Frame L D E)) :
    Shared L D E → Multiset (Frame L D E) → Prop
  | still : Seen job sh f view sh view
  | acts (g : Frame L D E) (reaction : Reaction (Shared L D E) (Frame L D E)) (others : Multiset (Frame L D E))
      (seen : view = g ::ₘ others) (reacts : Reacts job sh g reaction)
      (own : f.stage = .act g.stage ∨ ∃ w t, g.stage = .node w t) :
      Seen job sh f view reaction.shared (reaction.frames + others)

theorem moves_view {rest : Multiset (ListFrame L D E)} {q : Option Nat} (moves : Moves job sh q f r)
    (told : ∀ w nodes after, f.stage = .walk w nodes after → (sh.base.list w).waiting = false) :
    Seen job sh.base f (sh.view (f ::ₘ rest)) r.shared.base (r.shared.view (r.frames + rest)) := by
  rw [Reaction.frames,view_frames,view_cons]
  have acts (region : Option Nat) (stage : Stage L D E) (reaction : Reaction (Shared L D E) (Frame L D E))
      (same : f = ⟨region,.act stage⟩) (reacts : Reacts job sh.base ⟨region,stage⟩ reaction) :
      Seen job sh.base f (↑f.view + sh.view rest) reaction.shared (reaction.frames + sh.view rest) := by
    subst same
    exact .acts ⟨region,stage⟩ reaction _ rfl reacts (Or.inl rfl)
  have still (heads : ListShared L D E) (frames : List (ListFrame L D E)) (base : heads.base = sh.base)
      (same : (↑(frames.flatMap ListFrame.view) : Multiset (Frame L D E)) + heads.view rest =
        ↑f.view + sh.view rest) :
      Seen job sh.base f (↑f.view + sh.view rest) heads.base
        (↑(frames.flatMap ListFrame.view) + heads.view rest) := by
    rw [same,base]
    exact .still
  cases moves with
  | plain region stage reaction plain reacts =>
    rw [← List.map_append,view_lift]
    exact acts region stage reaction rfl reacts
  | doWorkAsync region w t waiting => exact acts region (.doWorkAsync w t) _ rfl (.add region w t waiting)
  | startWork region w started => exact acts region (.startWork w) _ rfl (.startWork region w started)
  | queued region w e queue => exact acts region (.queued w e) _ rfl (.queued region q w e queue)
  | parallel region w target found next missing =>
    exact acts region (.get w target found next) _ rfl (.parallel region w target found next missing)
  | doneWaiting region w e => exact acts region (.doneWaiting w e) _ rfl (.doneWaiting region w e)
  | addFirst region w t | add region w t =>
    refine still {sh with heads := (w,t) :: sh.heads} _ rfl ?_
    rw [view_added,Multiset.add_cons]
    have swap (a b : Frame L D E) (others : Multiset (Frame L D E)) :
        a ::ₘ (↑[b] + others) = ↑[b,a] + others := by
      rw [← Multiset.cons_coe b [a],Multiset.coe_singleton,Multiset.coe_singleton,Multiset.cons_add,
        Multiset.singleton_add,Multiset.singleton_add,Multiset.cons_swap]
    exact swap (node w t) ⟨region,.startWork w⟩ (sh.view rest)
  | recheckWaiting | recheck | look | walkedOn | walked =>
    apply still sh _ rfl
    simp [ListFrame.view,resume]
  | announce region w after =>
    refine still {sh with heads := sh.heads.filter fun x => x.1 ≠ w} _ rfl ?_
    rw [← view_taken sh w rest,← add_assoc,Multiset.coe_add]
    exact congrArg (· + _) (Multiset.coe_eq_coe.mpr (by simpa [ListFrame.view] using List.perm_append_comm))
  | walk region w t nodes after =>
    let telling : Frame L D E := ⟨region,.doneWaitingTask t (sh.base.list w).exceptionPtr⟩
    let left : Multiset (Frame L D E) := (nodes.map (node w) ++ resume region w after : List (Frame L D E))
    have before : Seen job sh.base ⟨region,.walk w (t :: nodes) after⟩ (node w t ::ₘ (left + sh.view rest))
        sh.base (↑[telling] + (left + sh.view rest)) :=
      .acts (node w t) ⟨sh.base,[telling],[]⟩ _ rfl (.node none region w t (told w _ after rfl)) (Or.inr ⟨w,t,rfl⟩)
    rw [← Multiset.cons_add,← add_assoc] at before
    simpa [ListFrame.view,left,telling] using before

end Machine
end ToyMtFramework.OpenMP.Announce
