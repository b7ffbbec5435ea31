import ToyMtFramework.SingleThreadedEventsSound

/-! An event of the single-threaded framework is right exactly if its products can be
supplied. A filter decides as the event means as soon as what it reads was put. -/
namespace ToyMtFramework.SingleThreadedEvents
open Schedule (Outcome)

variable {L D E : Type} [DecidableEq L] [DecidableEq D] {job : Job L D E} {seed index : Nat}

section Paths
variable {configured : job.Configured} {start : Node L → Bool}

theorem doFilter_parts {depth : Nat} {s t : State L D} {label : L} {keep : Bool}
    (done : doFilter job seed index depth s label = .ok (t,keep)) : ∃ m,
      job.findFilter label = some m ∧
      (s.wasRun (.filter label) = true ∧ t = s ∧ keep = s.keep label ∨
        s.wasRun (.filter label) = false ∧ ∃ u outcome,
          execute seed index (get job seed index depth) s m = .ok (u,outcome) ∧
          t = ({u with keep := Function.update u.keep label outcome.keep} : State L D).setWasRun
            (.filter label) ∧ keep = outcome.keep) := by
  unfold doFilter at done
  split at done
  · simp at done
  · rename_i m found
    refine ⟨m,found,?_⟩
    split at done
    · obtain ⟨rfl,rfl⟩ := Prod.mk.inj (Except.ok.inj done)
      exact Or.inl ⟨‹_›,rfl,rfl⟩
    · rename_i unrun
      obtain ⟨⟨u,outcome⟩,executed,last⟩ := ran_of_bind done
      obtain ⟨rfl,rfl⟩ := Prod.mk.inj (Except.ok.inj last)
      exact Or.inr ⟨by simpa using unrun,u,outcome,executed,rfl,rfl⟩

theorem doFilter_grows {depth : Nat} {s t : State L D} {label : L} {keep : Bool}
    (done : doFilter job seed index depth s label = .ok (t,keep)) : Grown s.log t.log := by
  obtain ⟨m,-,⟨-,rfl,-⟩ | ⟨-,u,outcome,executed,rfl,-⟩⟩ := doFilter_parts done
  · exact Grown.refl t.log
  · exact (execute_grows (get_grows depth) executed).append (by simp)

/-- A filter on a path decides as the event means. -/
theorem doFilter_sound {depth : Nat} {s t : State L D} {label : L} {keep : Bool}
    (sound : Sound configured seed index start s) (unset : start (.filter label) = false)
    (done : doFilter job seed index depth s label = .ok (t,keep))
    (trusted : Faithful t.log ∨ Granted configured seed index start (.filter label)) :
    Sound configured seed index start t ∧
      keep = (Job.outcome configured seed index (.filter label)).keep ∧
      Extends job [.filter label] s.log t.log := by
  obtain ⟨m,found,⟨flagged,rfl,rfl⟩ | ⟨unrun,u,outcome,executed,rfl,rfl⟩⟩ := doFilter_parts done
  · have ran : .ran (.filter label) ∈ t.log := (sound.ran_iff _).mpr ⟨flagged,unset⟩
    exact ⟨sound,sound.keep label ran,
      ⟨List.prefix_refl _,fun _ ran => Or.inl ran,by simpa using ran⟩⟩
  · obtain ⟨after,rfl,supplied,before⟩ := execute_outcome (get_grows depth)
      (w := .filter label) found (fun key input => get_gives depth input) sound executed
      (trusted.imp_left fun faithful => faithful.earlier)
    have still := sound.still_unrun after unrun before
    have inputs (w : Node L) (needed : w ∈ job.needs (.filter label)) : .ran w ∈ u.log :=
      before.roots w needed
    have none (entry : Entry L D) (member : entry ∈ []) : ∃ key x, entry = .put key x := by
      simp at member
    refine ⟨after.executed still inputs supplied none ?_ ?_ rfl rfl ?_ ?_,rfl,
      before.executed none⟩
    · exact fun key _ => lastPut_nil key
    · exact fun key same => absurd same (by simp)
    · exact fun key => rfl
    · intro other
      by_cases same : other = label <;> simp [State.setWasRun,State.note,same]

theorem Sound.reached {s : State L D} (sound : Sound configured seed index start s) (label : L) :
    Sound configured seed index start (s.note (.reached label)) :=
  sound.note (by simp) (fun _ => rfl) (by simp)

theorem run_log {depth : Nat} {path : List L} {s t : State L D}
    (done : run job seed index depth s path = .ok t) : s.log <+: t.log := by
  induction path generalizing s with
  | nil =>
    obtain rfl := Except.ok.inj done
    exact List.prefix_refl _
  | cons label rest ih =>
    obtain ⟨⟨u,keep⟩,filtered,later⟩ := ran_of_bind done
    have first : s.log <+: u.log := (List.prefix_append _ _).trans (doFilter_grows filtered).kept
    simp only at later
    split at later
    · exact first.trans (ih later)
    · obtain rfl := Except.ok.inj later
      exact first

theorem runPaths_log {depth : Nat} {paths : List (List L)} {s t : State L D}
    (done : runPaths job seed index depth s paths = .ok t) : s.log <+: t.log := by
  induction paths generalizing s with
  | nil =>
    obtain rfl := Except.ok.inj done
    exact List.prefix_refl _
  | cons path paths ih =>
    obtain ⟨u,ran,later⟩ := ran_of_bind done
    exact (run_log ran).trans (ih later)

structure Passes (job : Job L D E) (labels : List L) (s t : List (Entry L D)) : Prop where
  extends_ : Extends job (labels.map .filter) s t
  reached : ∀ label, .reached label ∈ t ↔ .reached label ∈ s ∨ label ∈ labels

omit [DecidableEq D] in
theorem Passes.nil (log : List (Entry L D)) : Passes job [] log log :=
  ⟨Extends.nil log,by simp⟩

omit [DecidableEq D] in
theorem Passes.append {first second : List L} {s t u : List (Entry L D)}
    (before : Passes job first s t) (after : Passes job second t u) :
    Passes job (first ++ second) s u := by
  refine ⟨?_,fun label => ?_⟩
  · rw [List.map_append]
    exact before.extends_.append after.extends_
  · rw [after.reached,before.reached,List.mem_append,or_assoc]

theorem doFilter_passes {depth : Nat} {s t : State L D} {label : L} {keep : Bool}
    (sound : Sound configured seed index start s) (unset : start (.filter label) = false)
    (done : doFilter job seed index depth (s.note (.reached label)) label = .ok (t,keep))
    (trusted : Faithful t.log ∨ Granted configured seed index start (.filter label)) :
    Sound configured seed index start t ∧
      keep = (Job.outcome configured seed index (.filter label)).keep ∧
      Passes job [label] s.log t.log := by
  obtain ⟨after,decided,before⟩ := doFilter_sound (sound.reached label) unset done trusted
  have grown := doFilter_grows done
  refine ⟨after,decided,⟨⟨(List.prefix_append _ _).trans before.kept,?_,before.roots⟩,?_⟩⟩
  · intro w ran
    refine (before.origin w ran).imp_left fun earlier => ?_
    simpa [State.note] using earlier
  · intro other
    constructor
    · intro member
      simpa [State.note] using grown.reached other member
    · intro member
      exact grown.kept.subset (by simpa [State.note] using member)

/-- A path passes the filters that the event means it to reach. -/
theorem run_passes {depth : Nat} {path : List L} {s t : State L D}
    (sound : Sound configured seed index start s)
    (unset : ∀ label ∈ path, start (.filter label) = false)
    (done : run job seed index depth s path = .ok t)
    (trusted : Faithful t.log ∨ ∀ label ∈ Job.reached configured seed index path,
      Granted configured seed index start (.filter label)) :
    Sound configured seed index start t ∧
      Passes job (Job.reached configured seed index path) s.log t.log := by
  induction path generalizing s with
  | nil =>
    obtain rfl := Except.ok.inj done
    exact ⟨sound,Passes.nil s.log⟩
  | cons label rest ih =>
    obtain ⟨⟨u,keep⟩,filtered,later⟩ := ran_of_bind done
    have kept : u.log <+: t.log := by
      simp only at later
      split at later
      · exact run_log later
      · obtain rfl := Except.ok.inj later
        exact List.prefix_refl _
    obtain ⟨after,decided,first⟩ := doFilter_passes sound (unset label List.mem_cons_self) filtered
      (trusted.imp (fun faithful => faithful.of_prefix kept)
        (fun granted => granted label List.mem_cons_self))
    simp only at later
    rw [Job.reached] at trusted ⊢
    rw [← decided] at trusted ⊢
    cases keep with
    | false =>
      obtain rfl := Except.ok.inj later
      exact ⟨after,first⟩
    | true =>
      obtain ⟨sound,others⟩ := ih after (fun other member => unset other (List.mem_cons_of_mem label member))
        later (trusted.imp_right fun granted other member => granted other (List.mem_cons_of_mem label member))
      exact ⟨sound,first.append others⟩

theorem runPaths_passes {depth : Nat} {paths : List (List L)} {s t : State L D}
    (sound : Sound configured seed index start s)
    (unset : ∀ path ∈ paths, ∀ label ∈ path, start (.filter label) = false)
    (done : runPaths job seed index depth s paths = .ok t)
    (trusted : Faithful t.log ∨ ∀ path ∈ paths, ∀ label ∈ Job.reached configured seed index path,
      Granted configured seed index start (.filter label)) :
    Sound configured seed index start t ∧
      Passes job (paths.flatMap (Job.reached configured seed index)) s.log t.log := by
  induction paths generalizing s with
  | nil =>
    obtain rfl := Except.ok.inj done
    exact ⟨sound,Passes.nil s.log⟩
  | cons path paths ih =>
    obtain ⟨u,ran,later⟩ := ran_of_bind done
    obtain ⟨after,first⟩ := run_passes sound (unset path List.mem_cons_self) ran
      (trusted.imp (fun faithful => faithful.of_prefix (runPaths_log later))
        (fun granted => granted path List.mem_cons_self))
    obtain ⟨sound,others⟩ := ih after (fun other member => unset other (List.mem_cons_of_mem path member))
      later (trusted.imp_right fun granted other member => granted other (List.mem_cons_of_mem path member))
    exact ⟨sound,first.append others⟩

theorem Sound.initial (configured : job.Configured) (s : State L D) (flags : Node L → Bool) :
    Sound configured seed index flags {s with wasRun := flags,log := []} := by
  refine ⟨?_,fun _ set_ => set_,?_,?_,fun _ _ => rfl,?_,?_,?_,?_⟩
  · intro w
    have never : ¬ (flags w = true ∧ flags w = false) := by
      rintro ⟨set_,unset⟩
      exact absurd (set_.symm.trans unset) (by simp)
    rw [if_neg never]
    rfl
  · intro key x found
    exact absurd found (by simp)
  · exact fun key ran => absurd ran List.not_mem_nil
  · exact fun label ran => absurd ran List.not_mem_nil
  · intro before w after split
    exact absurd split (by simp)
  · exact fun w ran => absurd ran List.not_mem_nil
  · intro before key x after split
    exact absurd split (by simp)

/-- What was executed needs what was executed. -/
theorem Sound.closed {s : State L D} (sound : Sound configured seed index start s) {w v : Node L}
    (depends : job.DependsOn w v) (ran : .ran w ∈ s.log) : .ran v ∈ s.log := by
  induction depends with
  | refl => exact ran
  | @tail v u _ needed ih =>
    obtain ⟨before,after,split⟩ := List.append_of_mem ih
    rw [split]
    exact List.mem_append_left _ (sound.ordered before v after split u needed)

/-- An event is right exactly if the products it reads can be supplied. -/
theorem process_right_iff (configured : job.Configured) {depth : Nat} {s t : State L D}
    (empty : s.log = []) (done : process job seed index depth s = .ok t) :
    Right job t.log ↔ Job.Supplied configured seed index s.wasRun := by
  have begun : {s with wasRun := reset job s.wasRun} =
      ({s with wasRun := reset job s.wasRun,log := []} : State L D) := by
    rw [← empty]
  have initial : Sound configured seed index (reset job s.wasRun)
      {s with wasRun := reset job s.wasRun} := by
    rw [begun]
    exact Sound.initial configured s _
  have unset (path : List L) (listed : path ∈ job.paths) (label : L) (member : label ∈ path) :
      reset job s.wasRun (.filter label) = false :=
    if_pos (List.mem_flatten.mpr ⟨path,listed,member⟩)
  constructor
  · intro right
    obtain ⟨sound,passes⟩ := runPaths_passes initial unset done (Or.inl right.faithful)
    rintro w ⟨path,listed,label,reached,depends⟩ key input
    have root := passes.extends_.roots (.filter label)
      (List.mem_map_of_mem (List.mem_flatMap.mpr ⟨path,listed,reached⟩))
    have ran := sound.closed depends root
    have needed : job.DependsOn w (.producer key.1) :=
      Relation.ReflTransGen.single (List.mem_map_of_mem input)
    exact ⟨((sound.ran_iff _).mp (sound.closed needed ran)).2,sound.supplied w ran key input⟩
  · intro supplied
    obtain ⟨sound,passes⟩ := runPaths_passes initial unset done
      (Or.inr fun path listed label reached v depends => supplied v ⟨path,listed,label,reached,depends⟩)
    refine ⟨?_,sound.ordered,sound.faithful⟩
    intro label w reached depends
    have member := ((passes.reached label).mp reached).resolve_left (by simp [empty])
    have ran := sound.closed depends (passes.extends_.roots _ (List.mem_map_of_mem member))
    rw [sound.count,if_pos ((sound.ran_iff w).mp ran)]

end Paths

end ToyMtFramework.SingleThreadedEvents
