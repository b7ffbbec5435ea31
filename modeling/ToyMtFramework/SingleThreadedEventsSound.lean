import ToyMtFramework.SingleThreadedEventsMeaning

/-! One event of the single-threaded framework. The log of a call that returns extends the
log before it, and as long as what is read was put in the event, or can be put, each module
that is executed gets what its inputs mean and has the outcome that the event means. -/
namespace ToyMtFramework.SingleThreadedEvents
open Schedule (Outcome)

variable {L D E : Type} [DecidableEq L] [DecidableEq D] {job : Job L D E} {seed index : Nat}

theorem ran_of_bind {ε α β : Type} {call : Except ε α} {rest : α → Except ε β} {b : β}
    (done : (call >>= rest) = .ok b) : ∃ a, call = .ok a ∧ rest a = .ok b := by
  cases called : call with
  | error e => simp [called,bind,Except.bind] at done
  | ok a => exact ⟨a,rfl,by simpa [called,bind,Except.bind] using done⟩

section Grows

structure Grown (s t : List (Entry L D)) : Prop where
  kept : s <+: t
  reached : ∀ label, .reached label ∈ t → .reached label ∈ s

omit [DecidableEq L] [DecidableEq D] in
theorem Grown.refl (log : List (Entry L D)) : Grown log log :=
  ⟨List.prefix_refl log,fun _ member => member⟩

omit [DecidableEq L] [DecidableEq D] in
theorem Grown.trans {s t u : List (Entry L D)} (before : Grown s t) (after : Grown t u) : Grown s u :=
  ⟨before.kept.trans after.kept,fun label member => before.reached label (after.reached label member)⟩

omit [DecidableEq L] [DecidableEq D] in
theorem Grown.append {s t more : List (Entry L D)} (grown : Grown s t)
    (other : ∀ label, .reached label ∉ more) : Grown s (t ++ more) := by
  refine ⟨grown.kept.trans (List.prefix_append _ _),fun label member => ?_⟩
  rcases List.mem_append.mp member with member | member
  · exact grown.reached label member
  · exact absurd member (other label)

def Grows (get : State L D → L × D → Except (Stop E) (State L D × Int)) : Prop :=
  ∀ s key t x, get s key = .ok (t,x) → Grown s.log t.log

theorem putAll_log {label : L} {puts : List (D × Int)} {s t : State L D}
    (done : putAll job label s puts = .ok t) : t.log = s.log ++ entries label puts ∧
      t.wasRun = s.wasRun ∧ t.keep = s.keep ∧ ∀ key,
        t.value key.1 key.2 = (lastPut (entries label puts) key).getD (s.value key.1 key.2) := by
  induction puts generalizing s with
  | nil =>
    obtain rfl : s = t := by simpa [putAll] using done
    exact ⟨by simp [entries],rfl,rfl,fun key => rfl⟩
  | cons first puts ih =>
    obtain ⟨u,put_,rest⟩ := ran_of_bind done
    unfold put at put_
    split at put_
    · obtain rfl := Except.ok.inj put_
      obtain ⟨log,flags,keep,value⟩ := ih rest
      refine ⟨?_,flags,keep,fun key => ?_⟩
      · rw [log]
        simp [State.note,entries]
      · rw [value,show entries label (first :: puts) =
          [.put (label,first.1) first.2] ++ entries label puts from rfl,lastPut_append]
        cases found : lastPut (entries label puts) key with
        | some x => rfl
        | none =>
          by_cases same : (label,first.1) = key
          · subst same
            simp [lastPut,Entry.putOf]
          · have other : ¬ (key.1 = label ∧ key.2 = first.1) :=
              fun equal => same (Prod.ext equal.1.symm equal.2.symm)
            by_cases equal : key.1 = label
            · have differs : key.2 ≠ first.1 := fun product => other ⟨equal,product⟩
              subst equal
              simp [lastPut,Entry.putOf,same,differs]
            · simp [lastPut,Entry.putOf,same,equal]
    · simp at put_

omit [DecidableEq L] [DecidableEq D] in
theorem entries_only (label : L) (puts : List (D × Int)) :
    ∀ entry ∈ entries label puts, ∃ key x, entry = .put key x := by
  intro entry member
  obtain ⟨put,-,rfl⟩ := List.mem_map.mp member
  exact ⟨_,_,rfl⟩

omit [DecidableEq L] [DecidableEq D] in
theorem getAll_grows {get : State L D → L × D → Except (Stop E) (State L D × Int)} (grows : Grows get)
    {keys : List (L × D)} {s t : State L D} {values : List Int}
    (done : getAll get s keys = .ok (t,values)) : Grown s.log t.log := by
  induction keys generalizing s values with
  | nil =>
    obtain ⟨rfl,-⟩ := Prod.mk.inj (Except.ok.inj done)
    exact Grown.refl s.log
  | cons key keys ih =>
    obtain ⟨⟨u,x⟩,got,later⟩ := ran_of_bind done
    obtain ⟨⟨v,xs⟩,rest,last⟩ := ran_of_bind later
    obtain ⟨rfl,-⟩ := Prod.mk.inj (Except.ok.inj last)
    exact (grows s key u x got).trans (ih rest)

omit [DecidableEq L] [DecidableEq D] in
/-- The parts of an execution that returned. -/
theorem execute_parts {get : State L D → L × D → Except (Stop E) (State L D × Int)} {m : Module L D E}
    {s t : State L D} {outcome : Outcome D E}
    (done : execute seed index get s m = .ok (t,outcome)) : ∃ u prefetched asked,
      getAll get s m.getters = .ok (u,prefetched) ∧ getAll get u m.asks = .ok (t,asked) ∧
      outcome = m.perform seed index (prefetched ++ asked) ∧ outcome.thrown = none := by
  obtain ⟨⟨u,prefetched⟩,first,later⟩ := ran_of_bind done
  obtain ⟨⟨v,asked⟩,second,last⟩ := ran_of_bind later
  simp only at last
  split at last
  · simp at last
  · obtain ⟨rfl,rfl⟩ := Prod.mk.inj (Except.ok.inj last)
    exact ⟨u,prefetched,asked,first,second,rfl,‹_›⟩

theorem doProduce_parts {get : State L D → L × D → Except (Stop E) (State L D × Int)}
    {m : Module L D E} {s t : State L D} (done : doProduce job seed index get s m = .ok t) :
    ∃ u outcome v, execute seed index get s m = .ok (u,outcome) ∧
      putAll job m.label u outcome.puts = .ok v ∧ t = v.setWasRun (.producer m.label) := by
  obtain ⟨⟨u,outcome⟩,first,later⟩ := ran_of_bind done
  obtain ⟨v,second,last⟩ := ran_of_bind later
  exact ⟨u,outcome,v,first,second,(Except.ok.inj last).symm⟩

omit [DecidableEq L] [DecidableEq D] in
theorem execute_grows {get : State L D → L × D → Except (Stop E) (State L D × Int)} (grows : Grows get)
    {m : Module L D E} {s t : State L D} {outcome : Outcome D E}
    (done : execute seed index get s m = .ok (t,outcome)) : Grown s.log t.log := by
  obtain ⟨u,prefetched,asked,first,second,-,-⟩ := execute_parts done
  exact (getAll_grows grows first).trans (getAll_grows grows second)

/-- The two ways in which the event gives a product. -/
theorem get_parts {depth : Nat} {s t : State L D} {key : L × D} {x : Int}
    (done : get job seed index (depth + 1) s key = .ok (t,x)) : ∃ m u, job.lookup key = some m ∧
      (t,x) = u.read key ∧ (s.wasRun (.producer m.label) = true ∧ u = s ∨
        s.wasRun (.producer m.label) = false ∧
          doProduce job seed index (get job seed index depth) s m = .ok u) := by
  unfold get at done
  split at done
  · simp at done
  · rename_i m found
    split at done
    · exact ⟨m,s,found,(Except.ok.inj done).symm,Or.inl ⟨‹_›,rfl⟩⟩
    · rename_i unrun
      obtain ⟨u,produced,last⟩ := ran_of_bind done
      exact ⟨m,u,found,(Except.ok.inj last).symm,Or.inr ⟨by simpa using unrun,produced⟩⟩

theorem get_grows (depth : Nat) : Grows (get job seed index depth) := by
  induction depth with
  | zero =>
    intro s key t x done
    simp [get] at done
  | succ depth ih =>
    intro s key t x done
    obtain ⟨m,u,-,last,⟨-,rfl⟩ | ⟨-,produced⟩⟩ := get_parts done
    · obtain ⟨rfl,-⟩ := Prod.mk.inj last
      exact (Grown.refl u.log).append (by simp)
    · obtain ⟨v,outcome,w,executed,puts,rfl⟩ := doProduce_parts produced
      obtain ⟨rfl,-⟩ := Prod.mk.inj last
      have grown := execute_grows ih executed
      simp only [State.setWasRun,State.note,(putAll_log puts).1]
      refine ((grown.append ?_).append (by simp)).append (by simp)
      intro label member
      obtain ⟨key,y,equal⟩ := entries_only _ _ _ member
      exact absurd equal (by simp)

end Grows

/-- What was executed since `start` was executed once, after what it needs, and has its outcome. -/
structure Sound (configured : job.Configured) (seed index : Nat) (start : Node L → Bool)
    (s : State L D) : Prop where
  count : ∀ w, s.log.count (.ran w) = if s.wasRun w = true ∧ start w = false then 1 else 0
  flags : ∀ w, start w = true → s.wasRun w = true
  value : ∀ key x, lastPut s.log key = some x → s.value key.1 key.2 = x
  supply : ∀ key, .ran (.producer key.1) ∈ s.log →
    lastPut s.log key = Job.supply configured seed index key
  absent : ∀ key, .ran (.producer key.1) ∉ s.log → lastPut s.log key = none
  keep : ∀ label, .ran (.filter label) ∈ s.log →
    s.keep label = (Job.outcome configured seed index (.filter label)).keep
  ordered : ∀ before w after, s.log = before ++ .ran w :: after →
    ∀ v ∈ job.needs w, .ran v ∈ before
  supplied : ∀ w, .ran w ∈ s.log → ∀ key ∈ job.inputs w,
    (Job.supply configured seed index key).isSome = true
  faithful : Faithful s.log

def Granted (configured : job.Configured) (seed index : Nat) (start : Node L → Bool) (w : Node L) :
    Prop :=
  ∀ v, job.DependsOn w v → ∀ key ∈ job.inputs v,
    start (.producer key.1) = false ∧ (Job.supply configured seed index key).isSome = true

structure Extends (job : Job L D E) (roots : List (Node L)) (s t : List (Entry L D)) : Prop where
  kept : s <+: t
  origin : ∀ w, .ran w ∈ t → .ran w ∈ s ∨ ∃ root ∈ roots, job.DependsOn root w
  roots : ∀ root ∈ roots, .ran root ∈ t

omit [DecidableEq D] in
theorem Extends.nil (log : List (Entry L D)) : Extends job [] log log :=
  ⟨List.prefix_refl log,fun _ ran => Or.inl ran,by simp⟩

omit [DecidableEq D] in
theorem Extends.append {first second : List (Node L)} {s t u : List (Entry L D)}
    (before : Extends job first s t) (after : Extends job second t u) :
    Extends job (first ++ second) s u := by
  refine ⟨before.kept.trans after.kept,?_,?_⟩
  · intro w ran
    rcases after.origin w ran with ran | ⟨root,member,depends⟩
    · rcases before.origin w ran with ran | ⟨root,member,depends⟩
      · exact Or.inl ran
      · exact Or.inr ⟨root,List.mem_append_left _ member,depends⟩
    · exact Or.inr ⟨root,List.mem_append_right _ member,depends⟩
  · intro root member
    rcases List.mem_append.mp member with member | member
    · exact after.kept.subset (before.roots root member)
    · exact after.roots root member

omit [DecidableEq D] in
/-- What a module needs is executed before it. -/
theorem Extends.under {w : Node L} {s t : List (Entry L D)}
    (extends_ : Extends job (job.needs w ++ [w]) s t) : Extends job [w] s t := by
  refine ⟨extends_.kept,?_,fun root member => extends_.roots root (List.mem_append_right _ member)⟩
  intro v ran
  rcases extends_.origin v ran with ran | ⟨root,member,depends⟩
  · exact Or.inl ran
  · rcases List.mem_append.mp member with needed | member
    · exact Or.inr ⟨w,List.mem_singleton.mpr rfl,Relation.ReflTransGen.head needed depends⟩
    · exact Or.inr ⟨root,member,depends⟩

omit [DecidableEq D] in
/-- Entries that execute nothing. -/
theorem Extends.note {roots : List (Node L)} {s t : List (Entry L D)} {entry : Entry L D}
    (extends_ : Extends job roots s t) (quiet : ∀ w, entry ≠ .ran w) :
    Extends job roots s (t ++ [entry]) := by
  refine ⟨extends_.kept.trans (List.prefix_append _ _),?_,?_⟩
  · intro w ran
    rcases List.mem_append.mp ran with ran | last
    · exact extends_.origin w ran
    · exact absurd (List.mem_singleton.mp last).symm (quiet w)
  · exact fun root member => List.mem_append_left _ (extends_.roots root member)

section Sound
variable {configured : job.Configured} {start : Node L → Bool}

theorem Sound.ran_iff {s : State L D} (sound : Sound configured seed index start s) (w : Node L) :
    .ran w ∈ s.log ↔ s.wasRun w = true ∧ start w = false := by
  rw [← List.count_pos_iff,sound.count]
  split <;> simp_all

theorem Faithful.of_prefix {log later : List (Entry L D)} (faithful : Faithful later)
    (kept : log <+: later) : Faithful log := by
  obtain ⟨more,rfl⟩ := kept
  exact faithful.earlier

/-- An entry that neither puts nor executes keeps the log sound. -/
theorem Sound.note {s : State L D} (sound : Sound configured seed index start s) {entry : Entry L D}
    (quiet : ∀ w, entry ≠ .ran w) (silent : ∀ key, entry.putOf key = none)
    (right : ∀ key x, entry = .read key x → lastPut s.log key = some x) :
    Sound configured seed index start (s.note entry) := by
  have last (key : L × D) : lastPut (s.log ++ [entry]) key = lastPut s.log key := by
    rw [lastPut_note,silent,Option.none_or]
  have same (w : Node L) : .ran w ∈ (s.note entry).log ↔ .ran w ∈ s.log := by
    simp [State.note,(quiet w).symm]
  refine ⟨?_,sound.flags,?_,?_,?_,?_,?_,?_,?_⟩
  · intro w
    have none : [entry].count (.ran w) = 0 := by simp [quiet w]
    change (s.log ++ [entry]).count (.ran w) = _
    rw [List.count_append,none]
    exact sound.count w
  · exact fun key x found => sound.value key x ((last key).symm.trans found)
  · exact fun key ran => (last key).trans (sound.supply key ((same _).mp ran))
  · exact fun key unrun => (last key).trans (sound.absent key fun ran => unrun ((same _).mpr ran))
  · exact fun label ran => sound.keep label ((same _).mp ran)
  · intro before w after split
    rcases split_append split with ⟨between,earlier⟩ | ⟨between,-,later⟩
    · exact sound.ordered before w between earlier
    · have member : .ran w ∈ [entry] := by simp [later]
      exact absurd (List.mem_singleton.mp member).symm (quiet w)
  · exact fun w ran => sound.supplied w ((same w).mp ran)
  · apply sound.faithful.append
    intro between key x after single
    obtain ⟨rfl,equal,rfl⟩ : between = [] ∧ entry = .read key x ∧ after = [] := by
      rcases between with - | ⟨first,between⟩ <;> simp_all
    rw [List.append_nil]
    exact right key x equal

/-- What was put in the event is read. -/
theorem Sound.read {s : State L D} (sound : Sound configured seed index start s) {key : L × D}
    (ran : .ran (.producer key.1) ∈ s.log)
    (trusted : Faithful (s.read key).1.log ∨ (Job.supply configured seed index key).isSome = true) :
    Sound configured seed index start (s.read key).1 ∧
      (s.read key).2 = (Job.supply configured seed index key).getD 0 ∧
      (Job.supply configured seed index key).isSome = true := by
  obtain ⟨x,found⟩ : ∃ x, lastPut s.log key = some x := by
    rcases trusted with faithful | supplied
    · exact ⟨_,Faithful.read faithful⟩
    · obtain ⟨x,found⟩ := Option.isSome_iff_exists.mp supplied
      exact ⟨x,(sound.supply key ran).trans found⟩
  have stored := sound.value key x found
  have supply := (sound.supply key ran).symm.trans found
  refine ⟨sound.note (by simp) (fun _ => rfl) ?_,?_,?_⟩
  · intro other y equal
    obtain ⟨rfl,rfl⟩ := Entry.read.inj equal
    rw [found,stored]
  · change s.value key.1 key.2 = _
    rw [supply,stored]
    rfl
  · rw [supply]
    rfl

/-- A module whose inputs were executed has been executed. -/
theorem Sound.executed {s t : State L D} (sound : Sound configured seed index start s) {w : Node L}
    {puts : List (Entry L D)} (unrun : s.wasRun w = false)
    (inputs : ∀ v ∈ job.needs w, .ran v ∈ s.log)
    (supplied : ∀ key ∈ job.inputs w, (Job.supply configured seed index key).isSome = true)
    (only : ∀ entry ∈ puts, ∃ key x, entry = .put key x)
    (others : ∀ key, .producer key.1 ≠ w → lastPut puts key = none)
    (ours : ∀ key, .producer key.1 = w → lastPut puts key = Job.supply configured seed index key)
    (log : t.log = s.log ++ (puts ++ [.ran w]))
    (flags : t.wasRun = Function.update s.wasRun w true)
    (value : ∀ key, t.value key.1 key.2 = (lastPut puts key).getD (s.value key.1 key.2))
    (keep : ∀ label, t.keep label = if .filter label = w
      then (Job.outcome configured seed index w).keep else s.keep label) :
    Sound configured seed index start t := by
  have fresh : .ran w ∉ s.log := by
    rw [sound.ran_iff,unrun]
    simp
  have unset : start w = false := by
    by_contra set_
    rw [sound.flags w (by simpa using set_)] at unrun
    exact absurd unrun (by simp)
  have notRan (v : Node L) : .ran v ∉ puts := by
    intro member
    obtain ⟨key,x,equal⟩ := only _ member
    exact absurd equal (by simp)
  have ran_iff (v : Node L) : .ran v ∈ t.log ↔ .ran v ∈ s.log ∨ v = w := by
    rw [log]
    simp [notRan v]
  have last (key : L × D) : lastPut t.log key = (lastPut puts key).or (lastPut s.log key) := by
    rw [log,← List.append_assoc,lastPut_note,lastPut_append]
    exact Option.none_or
  have lastOurs (key : L × D) (same : .producer key.1 = w) :
      lastPut t.log key = Job.supply configured seed index key := by
    rw [last,ours key same,sound.absent key (same ▸ fresh),Option.or_none]
  have lastOther (key : L × D) (other : .producer key.1 ≠ w) : lastPut t.log key = lastPut s.log key := by
    rw [last,others key other,Option.none_or]
  refine ⟨?_,?_,?_,?_,?_,?_,?_,?_,?_⟩
  · intro v
    rw [log,List.count_append,List.count_append,List.count_eq_zero.mpr (notRan v),sound.count,flags]
    by_cases same : v = w
    · subst same
      simp [unrun,unset]
    · simp [same,Ne.symm same]
  · intro v set_
    rw [flags]
    by_cases same : v = w
    · simp [same]
    · simp [same,sound.flags v set_]
  · intro key x found
    rw [last] at found
    rw [value]
    cases put_ : lastPut puts key with
    | some y =>
      rw [put_] at found
      exact Option.some.inj found
    | none =>
      rw [put_,Option.none_or] at found
      exact sound.value key x found
  · intro key ran
    by_cases same : .producer key.1 = w
    · exact lastOurs key same
    · rw [lastOther key same]
      exact sound.supply key (((ran_iff _).mp ran).resolve_right same)
  · intro key ran
    have other : .producer key.1 ≠ w := fun same => ran ((ran_iff _).mpr (Or.inr same))
    rw [lastOther key other]
    exact sound.absent key fun earlier => ran ((ran_iff _).mpr (Or.inl earlier))
  · intro label ran
    rw [keep]
    split
    · rename_i same
      rw [same]
    · rename_i other
      exact sound.keep label (((ran_iff _).mp ran).resolve_right other)
  · intro before v after split v' needed
    rw [log,← List.append_assoc] at split
    rcases split_append split with ⟨between,earlier⟩ | ⟨between,rfl,later⟩
    · rcases split_append earlier with ⟨between,earlier⟩ | ⟨between,-,member⟩
      · exact sound.ordered before v between earlier v' needed
      · exact absurd (member ▸ List.mem_append_right _ List.mem_cons_self) (notRan v)
    · obtain ⟨rfl,rfl⟩ : between = [] ∧ v = w := by
        rcases between with - | ⟨first,between⟩ <;> simp_all
      rw [List.append_nil]
      exact List.mem_append_left _ (inputs v' needed)
  · intro v ran
    rcases (ran_iff v).mp ran with ran | rfl
    · exact sound.supplied v ran
    · exact supplied
  · rw [log]
    apply sound.faithful.append
    intro between key x after split
    have member : Entry.read key x ∈ puts ++ [.ran w] := by simp [split]
    rcases List.mem_append.mp member with member | member
    · obtain ⟨other,y,equal⟩ := only _ member
      exact absurd equal (by simp)
    · simp at member

def Gives (configured : job.Configured) (seed index : Nat) (start : Node L → Bool)
    (get : State L D → L × D → Except (Stop E) (State L D × Int)) (key : L × D) : Prop :=
  ∀ s t x, Sound configured seed index start s → get s key = .ok (t,x) →
    (Faithful t.log ∨ start (.producer key.1) = false ∧
      (Job.supply configured seed index key).isSome = true ∧
        Granted configured seed index start (.producer key.1)) →
    Sound configured seed index start t ∧ x = (Job.supply configured seed index key).getD 0 ∧
      (Job.supply configured seed index key).isSome = true ∧
        Extends job [.producer key.1] s.log t.log

theorem getAll_gives {get : State L D → L × D → Except (Stop E) (State L D × Int)} (grows : Grows get)
    {keys : List (L × D)} (gives : ∀ key ∈ keys, Gives configured seed index start get key)
    {s t : State L D} {values : List Int} (sound : Sound configured seed index start s)
    (done : getAll get s keys = .ok (t,values))
    (trusted : Faithful t.log ∨ ∀ key ∈ keys, start (.producer key.1) = false ∧
      (Job.supply configured seed index key).isSome = true ∧
        Granted configured seed index start (.producer key.1)) :
    Sound configured seed index start t ∧
      values = (keys.map fun key => (Job.supply configured seed index key).getD 0) ∧
      (∀ key ∈ keys, (Job.supply configured seed index key).isSome = true) ∧
      Extends job (keys.map fun key => .producer key.1) s.log t.log := by
  induction keys generalizing s values with
  | nil =>
    obtain ⟨rfl,rfl⟩ := Prod.mk.inj (Except.ok.inj done)
    exact ⟨sound,rfl,by simp,Extends.nil s.log⟩
  | cons key keys ih =>
    obtain ⟨⟨u,x⟩,got,later⟩ := ran_of_bind done
    obtain ⟨⟨v,xs⟩,rest,last⟩ := ran_of_bind later
    obtain ⟨rfl,rfl⟩ := Prod.mk.inj (Except.ok.inj last)
    have first := trusted.imp (fun faithful => faithful.of_prefix (getAll_grows grows rest).kept)
      (fun granted => granted key List.mem_cons_self)
    obtain ⟨sound,rfl,supplied,before⟩ := gives key List.mem_cons_self s u x sound got first
    obtain ⟨sound,rfl,others,after⟩ := ih (fun other member => gives other (List.mem_cons_of_mem key member))
      sound rest (trusted.imp_right fun granted other member => granted other (List.mem_cons_of_mem key member))
    refine ⟨sound,rfl,?_,before.append after⟩
    intro other member
    rcases List.mem_cons.mp member with rfl | member
    · exact supplied
    · exact others other member

/-- The body of a module has the outcome that the event means. -/
theorem execute_outcome {get : State L D → L × D → Except (Stop E) (State L D × Int)}
    (grows : Grows get) {w : Node L} {m : Module L D E} (found : job.module w = some m)
    (gives : ∀ key ∈ job.inputs w, Gives configured seed index start get key)
    {s t : State L D} {outcome : Outcome D E} (sound : Sound configured seed index start s)
    (done : execute seed index get s m = .ok (t,outcome))
    (trusted : Faithful t.log ∨ Granted configured seed index start w) :
    Sound configured seed index start t ∧ outcome = Job.outcome configured seed index w ∧
      (∀ key ∈ job.inputs w, (Job.supply configured seed index key).isSome = true) ∧
      Extends job (job.needs w) s.log t.log := by
  have inputs : job.inputs w = m.getters ++ m.asks := by
    rw [Job.inputs,found]
  have granted (key : L × D) (input : key ∈ job.inputs w)
      (all : Granted configured seed index start w) : start (.producer key.1) = false ∧
        (Job.supply configured seed index key).isSome = true ∧
          Granted configured seed index start (.producer key.1) := by
    obtain ⟨unset,supplied⟩ := all w Relation.ReflTransGen.refl key input
    have needed : .producer key.1 ∈ job.needs w := List.mem_map_of_mem input
    exact ⟨unset,supplied,fun v depends => all v (Relation.ReflTransGen.head needed depends)⟩
  rw [inputs] at gives granted
  obtain ⟨u,prefetched,asked,first,second,rfl,-⟩ := execute_parts done
  obtain ⟨sound,rfl,supplied,before⟩ := getAll_gives grows
    (fun key member => gives key (List.mem_append_left _ member)) sound first
    (trusted.imp (fun faithful => faithful.of_prefix (getAll_grows grows second).kept)
      (fun all key member => granted key (List.mem_append_left _ member) all))
  obtain ⟨sound,rfl,others,after⟩ := getAll_gives grows
    (fun key member => gives key (List.mem_append_right _ member)) sound second
    (trusted.imp_right fun all key member => granted key (List.mem_append_right _ member) all)
  refine ⟨sound,?_,?_,?_⟩
  · rw [outcome_eq,Job.perform,found,inputs,List.map_append]
  · intro key input
    rw [inputs] at input
    rcases List.mem_append.mp input with member | member
    · exact supplied key member
    · exact others key member
  · rw [Job.needs,inputs,List.map_append]
    exact before.append after

/-- What a module needs does not execute the module. -/
theorem Sound.still_unrun {s t : State L D} (sound : Sound configured seed index start s)
    (after : Sound configured seed index start t) {w : Node L} (unrun : s.wasRun w = false)
    (extends_ : Extends job (job.needs w) s.log t.log) : t.wasRun w = false := by
  by_contra set_
  have ran : .ran w ∈ t.log := by
    rw [after.ran_iff]
    refine ⟨by simpa using set_,?_⟩
    by_contra flagged
    rw [sound.flags w (by simpa using flagged)] at unrun
    exact absurd unrun (by simp)
  rcases extends_.origin w ran with ran | ⟨v,needed,depends⟩
  · rw [sound.ran_iff,unrun] at ran
    exact absurd ran.1 (by simp)
  · exact configured.not_depends needed depends

omit [DecidableEq D] in
theorem Extends.executed {s t : List (Entry L D)} {w : Node L} {puts : List (Entry L D)}
    (before : Extends job (job.needs w) s t) (only : ∀ entry ∈ puts, ∃ key x, entry = .put key x) :
    Extends job [w] s (t ++ (puts ++ [.ran w])) := by
  apply Extends.under
  apply before.append
  refine ⟨List.prefix_append _ _,?_,?_⟩
  · intro v ran
    rcases List.mem_append.mp ran with ran | member
    · exact Or.inl ran
    · rcases List.mem_append.mp member with member | member
      · obtain ⟨key,x,equal⟩ := only _ member
        exact absurd equal (by simp)
      · have same : v = w := by simpa using member
        subst same
        exact Or.inr ⟨v,List.mem_singleton.mpr rfl,Relation.ReflTransGen.refl⟩
  · intro root member
    rw [List.mem_singleton.mp member]
    simp

/-- A producer that has been run has put what the event means. -/
theorem doProduce_sound {get : State L D → L × D → Except (Stop E) (State L D × Int)}
    (grows : Grows get) {label : L} {m : Module L D E}
    (found : job.module (.producer label) = some m) (labelled : m.label = label)
    (gives : ∀ key ∈ job.inputs (.producer label), Gives configured seed index start get key)
    {s t : State L D} (sound : Sound configured seed index start s)
    (unrun : s.wasRun (.producer label) = false) (done : doProduce job seed index get s m = .ok t)
    (trusted : Faithful t.log ∨ Granted configured seed index start (.producer label)) :
    Sound configured seed index start t ∧ Extends job [.producer label] s.log t.log := by
  subst labelled
  obtain ⟨u,outcome,v,executed,puts,rfl⟩ := doProduce_parts done
  obtain ⟨log,flags,keep,value⟩ := putAll_log puts
  have whole : (v.setWasRun (.producer m.label)).log =
      u.log ++ (entries m.label outcome.puts ++ [.ran (.producer m.label)]) := by
    rw [State.setWasRun,State.note,log,List.append_assoc]
  rw [whole] at trusted
  obtain ⟨after,rfl,supplied,before⟩ := execute_outcome grows found gives sound executed
    (trusted.imp_left fun faithful => faithful.earlier)
  have still := sound.still_unrun after unrun before
  have inputs (w : Node L) (needed : w ∈ job.needs (.producer m.label)) : .ran w ∈ u.log :=
    before.roots w needed
  refine ⟨after.executed still inputs supplied (entries_only _ _) ?_ ?_ whole ?_ value ?_,?_⟩
  · intro key other
    exact lastPut_entries_other _ fun same => other (by rw [same])
  · intro key same
    change _ = lastPut (entries key.1 (Job.outcome configured seed index (.producer key.1)).puts) key
    rw [Node.producer.inj same]
  · rw [State.setWasRun,flags]
  · intro other
    simp [State.setWasRun,State.note,keep]
  · rw [whole]
    exact before.executed (entries_only _ _)

/-- `Event::get` gives what a product means, unless it reads what was not put in the event. -/
theorem get_gives (depth : Nat) {w : Node L} {key : L × D} (input : key ∈ job.inputs w) :
    Gives configured seed index start (get job seed index depth) key := by
  induction depth generalizing w key with
  | zero =>
    intro s t x sound done
    simp [get] at done
  | succ depth ih =>
    intro s t x sound done trusted
    obtain ⟨n,label,-,-,lookup,found⟩ := configured.input_found input
    obtain ⟨m,u,looked,last,how⟩ := get_parts done
    obtain rfl : n = m := Option.some.inj (lookup.symm.trans looked)
    obtain ⟨rfl,rfl⟩ := Prod.mk.inj last
    rw [label] at how
    rcases how with ⟨flagged,rfl⟩ | ⟨unrun,produced⟩
    · have ran : .ran (.producer key.1) ∈ u.log := by
        rcases trusted with faithful | ⟨unset,-,-⟩
        · by_contra unrun
          have put_ := Faithful.read faithful
          rw [sound.absent key unrun] at put_
          exact absurd put_ (by simp)
        · exact (sound.ran_iff _).mpr ⟨flagged,unset⟩
      obtain ⟨after,value,supplied⟩ := sound.read ran (trusted.imp_right fun granted => granted.2.1)
      have already : Extends job [.producer key.1] u.log u.log :=
        ⟨List.prefix_refl _,fun _ ran => Or.inl ran,by simpa using ran⟩
      exact ⟨after,value,supplied,already.note (by simp)⟩
    · obtain ⟨after,before⟩ := doProduce_sound (get_grows depth) found label (fun _ input => ih input)
        sound unrun produced (trusted.imp (fun faithful => faithful.earlier) (fun granted => granted.2.2))
      have ran := before.roots _ (List.mem_singleton.mpr rfl)
      obtain ⟨after,value,supplied⟩ := after.read ran (trusted.imp_right fun granted => granted.2.1)
      exact ⟨after,value,supplied,before.note (by simp)⟩

end Sound

end ToyMtFramework.SingleThreadedEvents
