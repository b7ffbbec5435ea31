import ToyMtFramework.EventLoop
import Mathlib.Data.List.Count
import Mathlib.Data.List.Nodup
import Mathlib.Tactic.SplitIfs

/-! Where the streams of the event loop are. A stream is at one place at a time, or its event is with
the holders of the task that waits for all paths. Its log is a word of a small automaton, whose phase
is known at each place. -/
namespace ToyMtFramework.EventLoop
open Activities Transition
open SerialTaskQueue (Framework)

inductive Reacts (c : Config) (sh : Shared) : Frame → Reaction Shared Frame → Prop
  | launched : Reacts c sh (.processAll []) ⟨sh,[],[]⟩
  | processAll (i : Nat) (is : List Nat) :
      Reacts c sh (.processAll (i :: is)) ⟨sh,[.handleNextEventAsync i,.processAll is],[]⟩
  | eventReset (i : Nat) :
      Reacts c sh (.handleNextEventAsync i) ⟨sh.record i .eventReset,[.setEventInfo i],[]⟩
  | accepted (i : Nat) (more : (sh.seenEvents + 1) % sizeBound ≤ c.nEvents) :
      Reacts c sh (.setEventInfo i)
        ⟨(sh.setEventInfo i).record i (.accepted sh.seenEvents),[.processAsync i],[]⟩
  | refused (i : Nat) (none : c.nEvents < (sh.seenEvents + 1) % sizeBound) :
      Reacts c sh (.setEventInfo i) ⟨(sh.setEventInfo i).record i .refused,[],[]⟩
  | processAsync (i : Nat) : Reacts c sh (.processAsync i)
      ⟨sh.record i (.processAsync (sh.index i)),[.scheduleReset i],[]⟩
  | scheduleReset (i : Nat) :
      Reacts c sh (.scheduleReset i) ⟨sh.record i .scheduleReset,[.runPaths i],[]⟩
  | noPaths (i : Nat) : Reacts c sh (.runPaths i) ⟨sh,[.callback i],[]⟩
  | runPaths (i : Nat) : Reacts c sh (.runPaths i)
      ⟨(sh.setCallback i true).make c.framework (.allPathsDone i),
        [.launch i (List.range c.paths.length)],[]⟩
  | allLaunched (i : Nat) : Reacts c sh (.launch i []) ⟨sh,[.decrement (.allPathsDone i)],[]⟩
  | launch (i p : Nat) (ps : List Nat) : Reacts c sh (.launch i (p :: ps))
      ⟨sh.hold (.allPathsDone i),[.runAsync i p,.launch i ps],[]⟩
  | emptyPath (i p : Nat) :
      Reacts c sh (.runAsync i p) ⟨sh.setWaiting i p true,[.doneWaiting i p],[.node i p]⟩
  | runAsync (i p : Nat) :
      Reacts c sh (.runAsync i p) ⟨sh.setWaiting i p true,[.runFilterAsync i p 0],[.node i p]⟩
  | runFilterAsync (i p k : Nat) : Reacts c sh (.runFilterAsync i p k)
      ⟨(sh.setIndex i p k).make c.framework (.nextFilter i p),[],[.filterAsync i p]⟩
  | filterAsync (i p : Nat) : Reacts c sh (.filterAsync i p) ⟨sh,[.decrement (.nextFilter i p)],[]⟩
  | nextFilter (i p k : Nat) :
      Reacts c sh (.filterFinished i p k) ⟨sh,[.runFilterAsync i p (k + 1)],[]⟩
  | lastFilter (i p k : Nat) : Reacts c sh (.filterFinished i p k) ⟨sh,[.doneWaiting i p],[]⟩
  | doneWaiting (i p : Nat) : Reacts c sh (.doneWaiting i p) ⟨sh.setWaiting i p false,[],[]⟩
  | node (i p : Nat) (free : sh.waiting i p = false) :
      Reacts c sh (.node i p) ⟨sh,[.decrement (.allPathsDone i)],[]⟩
  | decrementLast (t : Task) (last : sh.refCount t = 1) :
      Reacts c sh (.decrement t) ⟨sh.drop t,[],[.execute t]⟩
  | decrement (t : Task) (more : sh.refCount t ≠ 1) : Reacts c sh (.decrement t) ⟨sh.drop t,[],[]⟩
  | executeFilter (i p : Nat) : Reacts c sh (.execute (.nextFilter i p))
      ⟨sh,[.filterFinished i p (sh.filterIndex i p)],[]⟩
  | executePaths (i : Nat) :
      Reacts c sh (.execute (.allPathsDone i)) ⟨sh.setCallback i false,[.callback i],[]⟩
  | callback (i : Nat) :
      Reacts c sh (.callback i) ⟨sh.record i .callback,[],[.handleNextEventAsync i]⟩

theorem react_reacts {c : Config} {sh : Shared} {f : Frame} {keep : Bool} {r : Reaction Shared Frame}
    (reacted : react c sh f keep = some r) : Reacts c sh f r := by
  unfold react at reacted
  split at reacted
  · cases reacted
    exact .launched
  · cases reacted
    exact .processAll _ _
  · cases reacted
    exact .eventReset _
  · split at reacted <;> cases reacted
    · exact .accepted _ ‹_›
    · exact .refused _ (by omega)
  · cases reacted
    exact .processAsync _
  · cases reacted
    exact .scheduleReset _
  · split at reacted <;> cases reacted
    · exact .noPaths _
    · exact .runPaths _
  · cases reacted
    exact .allLaunched _
  · cases reacted
    exact .launch _ _ _
  · cases reacted
    split
    · exact .emptyPath _ _
    · exact .runAsync _ _
  · cases reacted
    exact .runFilterAsync _ _ _
  · cases reacted
    exact .filterAsync _ _
  · split at reacted <;> cases reacted
    · exact .nextFilter _ _ _
    · exact .lastFilter _ _ _
  · cases reacted
    exact .doneWaiting _ _
  · split at reacted <;> cases reacted
    exact .node _ _ (by simpa using ‹¬_ = true›)
  · cases reacted
    split
    · exact .decrementLast _ ‹_›
    · exact .decrement _ ‹_›
  · cases reacted
    exact .executeFilter _ _
  · split at reacted <;> cases reacted
    exact .executePaths _
  · cases reacted
    exact .callback _

/-- Where a stream is from its launch to its end. -/
inductive Phase where
  | between
  | reset
  | accepted (n : Nat)
  | handed
  | processing
  | refused
  deriving DecidableEq

def advance : Option Phase → Entry → Option Phase
  | some .between, .eventReset => some .reset
  | some .reset, .accepted n => some (.accepted n)
  | some .reset, .refused => some .refused
  | some (.accepted n), .processAsync m => if m = n then some .handed else none
  | some .handed, .scheduleReset => some .processing
  | some .processing, .callback => some .between
  | _, _ => none

def entries (log : List (Nat × Entry)) (i : Nat) : List Entry :=
  (log.filter fun x => x.1 = i).map Prod.snd

def phase (log : List (Nat × Entry)) (i : Nat) : Option Phase :=
  (entries log i).foldl advance (some .between)

theorem entries_append_self (log : List (Nat × Entry)) (i : Nat) (e : Entry) :
    entries (log ++ [(i,e)]) i = entries log i ++ [e] := by
  simp [entries]

theorem entries_append_of_ne {i j : Nat} (other : j ≠ i) (log : List (Nat × Entry)) (e : Entry) :
    entries (log ++ [(j,e)]) i = entries log i := by
  simp [entries,other]

theorem phase_append_self (log : List (Nat × Entry)) (i : Nat) (e : Entry) :
    phase (log ++ [(i,e)]) i = advance (phase log i) e := by
  rw [phase,entries_append_self,List.foldl_append]
  rfl

theorem phase_append_of_ne {i j : Nat} (other : j ≠ i) (log : List (Nat × Entry)) (e : Entry) :
    phase (log ++ [(j,e)]) i = phase log i := by
  rw [phase,entries_append_of_ne other,phase]

def control (i : Nat) : Frame → Nat
  | .processAll is => is.count i
  | .handleNextEventAsync j | .setEventInfo j | .processAsync j | .scheduleReset j | .runPaths j
  | .callback j | .execute (.allPathsDone j) => if i = j then 1 else 0
  | _ => 0

def owns (t : Task) : Frame → Nat
  | .launch i _ | .runAsync i _ | .node i _ => if t = .allPathsDone i then 1 else 0
  | .filterAsync i p => if t = .nextFilter i p then 1 else 0
  | .decrement u => if t = u then 1 else 0
  | _ => 0

def unrun (i p : Nat) : Frame → Nat
  | .launch j ps => if i = j then ps.count p else 0
  | .runAsync j q => if i = j ∧ p = q then 1 else 0
  | _ => 0

def waits (i p : Nat) : Frame → Nat
  | .node j q => if i = j ∧ p = q then 1 else 0
  | _ => 0

def runs (i p : Nat) : Frame → Nat
  | .runFilterAsync j q _ | .filterAsync j q | .filterFinished j q _ | .doneWaiting j q
  | .decrement (.nextFilter j q) | .execute (.nextFilter j q) => if i = j ∧ p = q then 1 else 0
  | _ => 0

def phaseAt (sh : Shared) (i : Nat) : Frame → Phase
  | .setEventInfo _ => .reset
  | .processAsync _ => .accepted (sh.index i)
  | .scheduleReset _ => .handed
  | .runPaths _ | .execute _ | .callback _ => .processing
  | _ => .between

def refusals (log : List (Nat × Entry)) (i : Nat) : Nat :=
  log.count (i,.refused)

structure Streams (c : Config) (sh : Shared) (bag : Multiset Frame) : Prop where
  place : ∀ i, weigh (control i) bag + min 1 (sh.refCount (.allPathsDone i)) + refusals sh.log i =
    if i < c.numConcurrentEvents then 1 else 0
  owners : ∀ t, sh.refCount t = weigh (owns t) bag
  once : ∀ i p, weigh (unrun i p) bag + weigh (waits i p) bag ≤ 1
  busy : ∀ i p, weigh (runs i p) bag ≤ weigh (waits i p) bag
  waiting : ∀ i p, 0 < weigh (runs i p) bag → sh.waiting i p = true
  located : ∀ f ∈ bag, ∀ i, 0 < control i f → phase sh.log i = some (phaseAt sh i f)
  processing : ∀ i, 0 < sh.refCount (.allPathsDone i) → phase sh.log i = some .processing
  ordered : ∀ i, (phase sh.log i).isSome = true
  known : ∀ x ∈ sh.log, x.1 < c.numConcurrentEvents

section Steps
variable {c : Config} {sh : Shared} {f : Frame} {r : Reaction Shared Frame} {rest : Multiset Frame}

theorem place_react (streams : Streams c sh (f ::ₘ rest)) (reacts : Reacts c sh f r) (i : Nat) :
    weigh (control i) (r.frames + rest) + min 1 (r.shared.refCount (.allPathsDone i)) +
      refusals r.shared.log i = if i < c.numConcurrentEvents then 1 else 0 := by
  have owners := streams.owners (.allPathsDone i)
  have before := streams.place i
  cases reacts <;> simp [control,owns,refusals,Shared.record,Shared.setEventInfo,Shared.make,Shared.hold,
    Shared.drop,Shared.setCallback,Shared.setWaiting,Shared.setIndex,Function.update_apply,List.count_append,
    List.count_cons] at owners before ⊢ <;> grind

theorem owns_le_runs (i p : Nat) (g : Frame) : owns (.nextFilter i p) g ≤ runs i p g := by
  cases g with
  | decrement t | execute t => cases t <;> simp [owns,runs]
  | _ => simp [owns,runs]

/-- Who waits for all paths holds their task. -/
theorem unowned {i : Nat} {g : Frame} (light : owns (.allPathsDone i) g = 0) (p : Nat) :
    unrun i p g = 0 ∧ waits i p g = 0 := by
  cases g <;> simp_all [owns,unrun,waits]

/-- While a frame has the stream, its task has no holder. -/
theorem Streams.unheld (streams : Streams c sh (f ::ₘ rest)) {i : Nat} (heavy : 0 < control i f) :
    sh.refCount (.allPathsDone i) = 0 := by
  have place := streams.place i
  rw [weigh_cons] at place
  split at place <;> omega

/-- While a path is being run by a frame, no other frame runs it. -/
theorem Streams.alone (streams : Streams c sh (f ::ₘ rest)) {i p : Nat} (heavy : runs i p f = 1) :
    weigh (runs i p) rest = 0 := by
  have once := streams.once i p
  have less := streams.busy i p
  simp only [weigh_cons,heavy] at once less
  omega

theorem Streams.unmade (streams : Streams c sh (f ::ₘ rest)) {i p k : Nat} (same : f = .runFilterAsync i p k) :
    sh.refCount (.nextFilter i p) = 0 := by
  subst same
  have owners := streams.owners (.nextFilter i p)
  have alone := streams.alone (i := i) (p := p) (by simp [runs])
  have less := weigh_le (owns_le_runs i p) rest
  rw [weigh_cons] at owners
  simp only [owns] at owners
  omega

theorem owners_react (streams : Streams c sh (f ::ₘ rest)) (reacts : Reacts c sh f r) (t : Task) :
    r.shared.refCount t = weigh (owns t) (r.frames + rest) := by
  have before := streams.owners t
  cases reacts with
  | runPaths i =>
    have none := streams.unheld (i := i) (by simp [control])
    by_cases same : t = .allPathsDone i
    · subst same
      rw [none] at before
      cases framework : c.framework <;> simp [owns,Shared.make,Shared.setCallback,none] at before ⊢
      all_goals omega
    · simp [owns,Shared.make,Shared.setCallback,same] at before ⊢
      exact before
  | runFilterAsync i p k =>
    have none := streams.unmade rfl
    by_cases same : t = .nextFilter i p
    · subst same
      rw [none] at before
      cases framework : c.framework <;> simp [owns,Shared.make,Shared.setIndex,none] at before ⊢
      all_goals omega
    · simp [owns,Shared.make,Shared.setIndex,same] at before ⊢
      exact before
  | _ =>
    simp [owns,Shared.record,Shared.setEventInfo,Shared.hold,Shared.drop,Shared.setCallback,
      Shared.setWaiting,Function.update_apply] at before ⊢
    grind

theorem once_react (streams : Streams c sh (f ::ₘ rest)) (reacts : Reacts c sh f r) (i p : Nat) :
    weigh (unrun i p) (r.frames + rest) + weigh (waits i p) (r.frames + rest) ≤ 1 := by
  have before := streams.once i p
  cases reacts with
  | runPaths j =>
    by_cases same : i = j
    · subst same
      have none := streams.unheld (i := i) (by simp [control])
      have owners := streams.owners (.allPathsDone i)
      rw [none,weigh_cons] at owners
      have light : weigh (owns (.allPathsDone i)) rest = 0 := by omega
      have unrun := weigh_light fun g member => (unowned (weigh_eq_zero light member) p).1
      have waits := weigh_light fun g member => (unowned (weigh_eq_zero light member) p).2
      have distinct := List.nodup_iff_count_le_one.mp (List.nodup_range (n := c.paths.length)) p
      rw [weigh_add,weigh_add,unrun,waits,Reaction.frames_mk,weigh_coe,weigh_coe]
      simpa [EventLoop.unrun,EventLoop.waits] using distinct
    · simp [unrun,waits,same] at before ⊢
      exact before
  | _ =>
    simp [unrun,waits,List.count_cons] at before ⊢
    grind

theorem runs_react (streams : Streams c sh (f ::ₘ rest)) (reacts : Reacts c sh f r) (i p : Nat) :
    weigh (runs i p) (r.frames + rest) ≤ weigh (waits i p) (r.frames + rest) := by
  have before := streams.busy i p
  have waiting := streams.waiting i p
  have once := streams.once i p
  cases reacts with
  | decrementLast t last | decrement t more =>
    cases t <;> simp [runs,waits] at before ⊢ <;> grind
  | _ =>
    simp [runs,waits,unrun] at before waiting once ⊢
    grind

theorem waiting_react (streams : Streams c sh (f ::ₘ rest)) (reacts : Reacts c sh f r) (i p : Nat)
    (running : 0 < weigh (runs i p) (r.frames + rest)) : r.shared.waiting i p = true := by
  have before := streams.waiting i p
  cases reacts with
  | doneWaiting j q =>
    by_cases same : i = j ∧ p = q
    · obtain ⟨rfl,rfl⟩ := same
      have alone := streams.alone (i := i) (p := p) (by simp [runs])
      simp [alone] at running
    · simp [runs,same,Shared.setWaiting,Function.update_apply] at before running ⊢
      grind
  | decrementLast t last | decrement t more =>
    cases t <;> simp [runs,Shared.drop] at before running ⊢ <;> grind
  | _ =>
    simp [runs,Shared.record,Shared.setEventInfo,Shared.make,Shared.hold,Shared.setCallback,Shared.setWaiting,
      Shared.setIndex,Function.update_apply] at before running ⊢
    grind

/-- A stream that a frame has is at no other place. -/
theorem Streams.elsewhere (streams : Streams c sh (f ::ₘ rest)) {i : Nat} (heavy : 0 < control i f)
    {g : Frame} (member : g ∈ rest) : control i g = 0 := by
  have place := streams.place i
  rw [weigh_cons] at place
  have light : weigh (control i) rest = 0 := by
    split at place <;> omega
  exact weigh_eq_zero light member

/-- The frame that has a stream adds to its log. -/
theorem Streams.record (streams : Streams c sh (f ::ₘ rest)) {j : Nat} (heavy : 0 < control j f)
    {e : Entry} {after : Phase} (advances : advance (some (phaseAt sh j f)) e = some after) :
    phase (sh.log ++ [(j,e)]) j = some after ∧
      ∀ i, phase (sh.log ++ [(j,e)]) i = if i = j then some after else phase sh.log i := by
  have own : phase (sh.log ++ [(j,e)]) j = some after := by
    rw [phase_append_self,streams.located f (Multiset.mem_cons_self f rest) j heavy,advances]
  refine ⟨own,fun i => ?_⟩
  split
  · rename_i same
    rw [same,own]
  · rename_i other
    rw [phase_append_of_ne (Ne.symm other)]

theorem phaseAt_congr {after : Shared} {i : Nat} (index : after.index i = sh.index i) (g : Frame) :
    phaseAt after i g = phaseAt sh i g := by
  cases g <;> simp [phaseAt,index]

def Phased (sh : Shared) (bag : Multiset Frame) : Prop :=
  (∀ g ∈ bag, ∀ i, 0 < control i g → phase sh.log i = some (phaseAt sh i g)) ∧
  (∀ i, 0 < sh.refCount (.allPathsDone i) → phase sh.log i = some .processing) ∧
  ∀ i, (phase sh.log i).isSome = true

/-- A step of the frame that has stream `j`, which adds to the log. -/
theorem Streams.recorded (streams : Streams c sh (f ::ₘ rest)) {j : Nat} (heavy : 0 < control j f)
    {e : Entry} {p : Phase} (advances : advance (some (phaseAt sh j f)) e = some p) {after : Shared}
    (log : after.log = sh.log ++ [(j,e)]) (refCount : after.refCount = sh.refCount)
    (index : ∀ i, i ≠ j → after.index i = sh.index i) {new : Multiset Frame}
    (fresh : ∀ g ∈ new, ∀ i, 0 < control i g → i = j ∧ phaseAt after j g = p) :
    Phased after (new + rest) := by
  obtain ⟨own,phases⟩ := streams.record heavy advances
  rw [← log] at own phases
  refine ⟨?_,?_,?_⟩
  · intro g member i has
    rcases Multiset.mem_add.mp member with inside | other
    · obtain ⟨rfl,same⟩ := fresh g inside i has
      rw [own,same]
    · have different : i ≠ j := by
        rintro rfl
        rw [streams.elsewhere heavy other] at has
        exact Nat.lt_irrefl 0 has
      rw [phases i,if_neg different,phaseAt_congr (index i different)]
      exact streams.located g (Multiset.mem_cons_of_mem other) i has
  · intro i held
    rw [refCount] at held
    have different : i ≠ j := by
      rintro rfl
      rw [streams.unheld heavy] at held
      exact Nat.lt_irrefl 0 held
    rw [phases i,if_neg different]
    exact streams.processing i held
  · intro i
    rw [phases i]
    split
    · rfl
    · exact streams.ordered i

/-- A step that adds nothing to the log. -/
theorem Streams.silent (streams : Streams c sh (f ::ₘ rest)) {after : Shared} (log : after.log = sh.log)
    (index : after.index = sh.index) {new : Multiset Frame}
    (held : ∀ i, 0 < after.refCount (.allPathsDone i) →
      0 < sh.refCount (.allPathsDone i) ∨ 0 < control i f ∧ phaseAt sh i f = .processing)
    (fresh : ∀ g ∈ new, ∀ i, 0 < control i g → phase sh.log i = some (phaseAt sh i g)) :
    Phased after (new + rest) := by
  refine ⟨?_,?_,?_⟩
  · intro g member i has
    rw [log,phaseAt_congr (congrFun index i)]
    rcases Multiset.mem_add.mp member with inside | other
    · exact fresh g inside i has
    · exact streams.located g (Multiset.mem_cons_of_mem other) i has
  · intro i positive
    rw [log]
    rcases held i positive with before | ⟨has,processing⟩
    · exact streams.processing i before
    · rw [streams.located f (Multiset.mem_cons_self f rest) i has,processing]
  · intro i
    rw [log]
    exact streams.ordered i

theorem dropped (t u : Task) (held : 0 < (sh.drop t).refCount u) : 0 < sh.refCount u := by
  simp only [Shared.drop,Function.update_apply] at held
  split at held
  · rename_i same
    rw [same]
    omega
  · exact held

/-- Frames that have no stream say nothing about the phases. -/
theorem Streams.silent_free (streams : Streams c sh (f ::ₘ rest)) {after : Shared} (log : after.log = sh.log)
    (index : after.index = sh.index) {new : Multiset Frame}
    (held : ∀ i, 0 < after.refCount (.allPathsDone i) →
      0 < sh.refCount (.allPathsDone i) ∨ 0 < control i f ∧ phaseAt sh i f = .processing)
    (free : ∀ g ∈ new, ∀ i, control i g = 0) : Phased after (new + rest) := by
  refine streams.silent log index held fun g member i has => ?_
  rw [free g member i] at has
  exact absurd has (Nat.lt_irrefl 0)

theorem phased_react (streams : Streams c sh (f ::ₘ rest)) (reacts : Reacts c sh f r) :
    Phased r.shared (r.frames + rest) := by
  have located := streams.located f (Multiset.mem_cons_self f rest)
  have only {i j : Nat} (has : 0 < if i = j then 1 else 0) : i = j :=
    by_contra fun other => by simp [other] at has
  cases reacts with
  | eventReset j =>
    refine streams.recorded (j := j) (e := .eventReset) (p := .reset) ?_ ?_ ?_ ?_ ?_ ?_
    · simp [control]
    · rfl
    · rfl
    · rfl
    · exact fun _ _ => rfl
    · intro g member i has
      obtain rfl := List.mem_singleton.mp (Multiset.mem_coe.mp member)
      exact ⟨only has,rfl⟩
  | accepted j more =>
    refine streams.recorded (j := j) (e := .accepted sh.seenEvents) (p := .accepted sh.seenEvents)
      ?_ ?_ ?_ ?_ ?_ ?_
    · simp [control]
    · rfl
    · rfl
    · rfl
    · exact fun i other => Function.update_of_ne other _ _
    · intro g member i has
      obtain rfl := List.mem_singleton.mp (Multiset.mem_coe.mp member)
      refine ⟨only has,?_⟩
      simp [phaseAt,Shared.record,Shared.setEventInfo]
  | refused j none =>
    refine streams.recorded (j := j) (e := .refused) (p := .refused) ?_ ?_ ?_ ?_ ?_ ?_
    · simp [control]
    · rfl
    · rfl
    · rfl
    · exact fun i other => Function.update_of_ne other _ _
    · intro g member
      simp at member
  | processAsync j =>
    refine streams.recorded (j := j) (e := .processAsync (sh.index j)) (p := .handed) ?_ ?_ ?_ ?_ ?_ ?_
    · simp [control]
    · simp [phaseAt,advance]
    · rfl
    · rfl
    · exact fun _ _ => rfl
    · intro g member i has
      obtain rfl := List.mem_singleton.mp (Multiset.mem_coe.mp member)
      exact ⟨only has,rfl⟩
  | scheduleReset j =>
    refine streams.recorded (j := j) (e := .scheduleReset) (p := .processing) ?_ ?_ ?_ ?_ ?_ ?_
    · simp [control]
    · rfl
    · rfl
    · rfl
    · exact fun _ _ => rfl
    · intro g member i has
      obtain rfl := List.mem_singleton.mp (Multiset.mem_coe.mp member)
      exact ⟨only has,rfl⟩
  | callback j =>
    refine streams.recorded (j := j) (e := .callback) (p := .between) ?_ ?_ ?_ ?_ ?_ ?_
    · simp [control]
    · rfl
    · rfl
    · rfl
    · exact fun _ _ => rfl
    · intro g member i has
      obtain rfl := List.mem_singleton.mp (Multiset.mem_coe.mp member)
      exact ⟨only has,rfl⟩
  | decrementLast t last =>
    refine streams.silent ?_ ?_ ?_ ?_
    · rfl
    · rfl
    · intro i held
      exact Or.inl (dropped t (.allPathsDone i) held)
    · intro g member i has
      obtain rfl := List.mem_singleton.mp (Multiset.mem_coe.mp member)
      cases t with
      | nextFilter j p => simp [control] at has
      | allPathsDone j =>
        obtain rfl := only has
        exact streams.processing i (by omega)
  | decrement t more =>
    refine streams.silent_free ?_ ?_ ?_ ?_
    · rfl
    · rfl
    · intro i held
      exact Or.inl (dropped t (.allPathsDone i) held)
    · simp
  | runPaths j =>
    refine streams.silent_free ?_ ?_ ?_ ?_
    · rfl
    · rfl
    · intro i held
      by_cases same : i = j
      · subst same
        exact Or.inr ⟨by simp [control],rfl⟩
      · simp [Shared.make,Shared.setCallback,same] at held
        exact Or.inl held
    · simp [control]
  | launch j p ps =>
    refine streams.silent_free ?_ ?_ ?_ ?_
    · rfl
    · rfl
    · intro i held
      left
      by_cases same : i = j
      · subst same
        have owners := streams.owners (.allPathsDone i)
        simp [owns] at owners
        omega
      · simp [Shared.hold,same] at held
        exact held
    · simp [control]
  | processAll j js =>
    refine streams.silent ?_ ?_ (fun i held => Or.inl held) ?_
    · rfl
    · rfl
    · intro g member i has
      rcases List.mem_cons.mp (Multiset.mem_coe.mp member) with rfl | later
      · obtain rfl := only has
        exact located i (by simp [control])
      · obtain rfl := List.mem_singleton.mp later
        exact located i (lt_of_lt_of_le has List.count_le_count_cons)
  | noPaths j | executePaths j =>
    refine streams.silent ?_ ?_ (fun i held => Or.inl held) ?_
    · rfl
    · rfl
    · intro g member i has
      obtain rfl := List.mem_singleton.mp (Multiset.mem_coe.mp member)
      exact located i has
  | runFilterAsync j p k =>
    refine streams.silent_free ?_ ?_ (fun i held => Or.inl ?_) ?_
    · rfl
    · rfl
    · simpa [Shared.make,Shared.setIndex] using held
    · simp [control]
  | launched | doneWaiting j p | emptyPath j p | runAsync j p | allLaunched j | filterAsync j p | nextFilter j p k
  | lastFilter j p k | node j p free | executeFilter j p =>
    refine streams.silent_free ?_ ?_ (fun i held => Or.inl held) ?_
    · rfl
    · rfl
    · simp [control]

/-- Only launched streams do something. -/
theorem known_react (streams : Streams c sh (f ::ₘ rest)) (reacts : Reacts c sh f r) :
    ∀ x ∈ r.shared.log, x.1 < c.numConcurrentEvents := by
  have launched {i : Nat} (has : 0 < control i f) : i < c.numConcurrentEvents := by
    have place := streams.place i
    rw [weigh_cons] at place
    by_contra outside
    rw [if_neg outside] at place
    omega
  have grown {i : Nat} (has : 0 < control i f) (e : Entry) :
      ∀ x ∈ sh.log ++ [(i,e)], x.1 < c.numConcurrentEvents := by
    intro x member
    rcases List.mem_append.mp member with old | new
    · exact streams.known x old
    · obtain rfl := List.mem_singleton.mp new
      exact launched has
  cases reacts with
  | eventReset i | accepted i more | refused i none | processAsync i | scheduleReset i | callback i =>
    exact grown (by simp [control]) _
  | _ => exact streams.known

theorem Streams.react (streams : Streams c sh (f ::ₘ rest)) (reacts : Reacts c sh f r) :
    Streams c r.shared (r.frames + rest) := by
  obtain ⟨located,processing,ordered⟩ := phased_react streams reacts
  exact ⟨place_react streams reacts,owners_react streams reacts,once_react streams reacts,
    runs_react streams reacts,waiting_react streams reacts,located,processing,ordered,
    known_react streams reacts⟩

end Steps

theorem initial_streams {c : Config} (positive : 0 < c.numConcurrentEvents) :
    Streams c (initial c).shared (initial c).bag := by
  have bag : (initial c).bag = {.processAll (List.range' 1 (c.numConcurrentEvents - 1) ++ [0])} := rfl
  have distinct : (List.range' 1 (c.numConcurrentEvents - 1) ++ [0]).Nodup := by
    apply List.Nodup.append List.nodup_range' (List.nodup_singleton 0)
    intro i launched last
    obtain rfl := List.mem_singleton.mp last
    rw [List.mem_range'_1] at launched
    omega
  rw [bag]
  refine ⟨?_,?_,?_,?_,?_,?_,?_,?_,?_⟩
  · intro i
    simp only [weigh_singleton,control,distinct.count,List.mem_append,List.mem_range'_1,List.mem_singleton]
    simp only [initial,refusals,List.count_nil,Nat.min_zero,Nat.add_zero]
    apply if_congr _ rfl rfl
    omega
  · simp [initial,owns]
  · simp [unrun,waits]
  · simp [runs,waits]
  · simp [initial]
  · intro f member i _
    obtain rfl := Multiset.mem_singleton.mp member
    rfl
  · simp [initial]
  · intro i
    rfl
  · simp [initial]

theorem Streams.next {c : Config} {s t : State} {a : Nat × Bool} (streams : Streams c s.shared s.bag)
    (taken : next c s a = some t) : Streams c t.shared t.bag :=
  Pool.step_invariant (fun _ _ _ _ _ streams reacted => streams.react (react_reacts reacted)) streams taken

end ToyMtFramework.EventLoop
