import ToyMtFramework.EventLoop
import Mathlib.Data.List.Range

/-! The sources of the single-threaded and of the TBB framework and the loop that asks
them for events. The number of events comes from the configuration as a `size_t`. The
single-threaded source keeps it, and counts, in an `unsigned int`. -/
namespace ToyMtFramework.SimpleSource

structure Offer (σ : Type) where
  index : UInt64
  accepted : Bool
  source : σ

namespace SingleThreaded

structure Source where
  nEvents : UInt32
  seenEvents : UInt32

/-- The constructor's parameter is an `unsigned int`. -/
def construct (iterations : UInt64) : Source where
  nEvents := iterations.toUInt32
  seenEvents := 0

def setEventInfo (s : Source) : Offer Source where
  index := s.seenEvents.toUInt64
  accepted := s.nEvents ≥ s.seenEvents + 1
  source := {s with seenEvents := s.seenEvents + 1}

end SingleThreaded

namespace TBB

structure Source where
  nEvents : UInt64
  seenEvents : UInt64

def construct (iterations : UInt64) : Source where
  nEvents := iterations
  seenEvents := 0

def setEventInfo (s : Source) : Offer Source where
  index := s.seenEvents
  accepted := s.nEvents ≥ s.seenEvents + 1
  source := {s with seenEvents := s.seenEvents + 1}

/-- One call on the source is the step that the event loop of the streams takes. -/
theorem setEventInfo_shared (s : Source) (c : EventLoop.Config) (sh : EventLoop.Shared) (i : Nat)
    (events : c.nEvents = s.nEvents.toNat) (seen : sh.seenEvents = s.seenEvents.toNat) :
    (sh.setEventInfo i).seenEvents = (setEventInfo s).source.seenEvents.toNat ∧
      (sh.setEventInfo i).index i = (setEventInfo s).index.toNat ∧
      ((setEventInfo s).accepted = true ↔ c.nEvents ≥ (sh.seenEvents + 1) % EventLoop.sizeBound) := by
  rw [events,seen]
  have next : (s.seenEvents + 1).toNat = (s.seenEvents.toNat + 1) % EventLoop.sizeBound := by
    rw [UInt64.toNat_add]
    rfl
  refine ⟨?_,?_,?_⟩
  · rw [setEventInfo,next,EventLoop.Shared.setEventInfo,seen]
  · change Function.update sh.index i sh.seenEvents i = s.seenEvents.toNat
    rw [Function.update_self,seen]
  · rw [setEventInfo,decide_eq_true_iff,ge_iff_le,UInt64.le_iff_toNat_le,next]

end TBB

section Loop
variable {σ S E : Type}

/-- `EventProcessor::processAll`: events are processed until the source refuses one. There is no
result when the calls are used up. -/
def processAll (setEventInfo : σ → Offer σ) (process : UInt64 → S → Except E S) :
    Nat → σ → S → Option (Except E (σ × S))
  | 0, _, _ => none
  | calls + 1, source, s =>
    let offer := setEventInfo source
    if offer.accepted then
      match process offer.index s with
      | .error e => some (.error e)
      | .ok s => processAll setEventInfo process calls offer.source s
    else some (.ok (offer.source,s))

def offered (setEventInfo : σ → Offer σ) : Nat → σ → List UInt64
  | 0, _ => []
  | calls + 1, source =>
    let offer := setEventInfo source
    if offer.accepted then offer.index :: offered setEventInfo calls offer.source else []

def note (index : UInt64) (noted : List Nat) : Except Empty (List Nat) :=
  .ok (noted ++ [index.toNat])

structure Counts (setEventInfo : σ → Offer σ) (seen : σ → Nat) (n bound : Nat)
    (Made : σ → Prop) : Prop where
  index : ∀ s, Made s → (setEventInfo s).index.toNat = seen s
  accepted : ∀ s, Made s → seen s + 1 < bound → ((setEventInfo s).accepted = true ↔ seen s < n)
  source : ∀ s, Made s → Made (setEventInfo s).source
  seen : ∀ s, Made s → seen s + 1 < bound → seen (setEventInfo s).source = seen s + 1

theorem Counts.delivers {setEventInfo : σ → Offer σ} {seen : σ → Nat} {n bound : Nat}
    {Made : σ → Prop} (counts : Counts setEventInfo seen n bound Made) (small : n + 1 < bound)
    (left : Nat) (s : σ) (made : Made s) (remaining : seen s + left = n) (noted : List Nat) :
    ∃ last, Made last ∧ seen last = n + 1 ∧
      processAll setEventInfo note (left + 1) s noted =
        some (.ok (last,noted ++ List.range' (seen s) left)) := by
  induction left generalizing s noted with
  | zero =>
    have refused : ¬ (setEventInfo s).accepted = true := by
      rw [counts.accepted s made (by omega)]
      omega
    refine ⟨(setEventInfo s).source,counts.source s made,?_,?_⟩
    · rw [counts.seen s made (by omega)]
      omega
    · rw [processAll,if_neg refused,List.range'_zero,List.append_nil]
  | succ left ih =>
    have accepted : (setEventInfo s).accepted = true := by
      rw [counts.accepted s made (by omega)]
      omega
    have next := counts.seen s made (by omega)
    obtain ⟨last,kept,counted,run⟩ := ih (setEventInfo s).source (counts.source s made)
      (by omega) (noted ++ [seen s])
    refine ⟨last,kept,counted,?_⟩
    rw [processAll,if_pos accepted,note,counts.index s made]
    change processAll setEventInfo note (left + 1) (setEventInfo s).source (noted ++ [seen s]) = _
    rw [run,next,List.append_assoc,List.singleton_append,← List.range'_succ]

/-- The source keeps the number of events as it is, delivers the events `0, …, n - 1` and then
stops, with its counter at the number of calls. -/
structure Exact (setEventInfo : σ → Offer σ) (nEvents seen : σ → Nat) (start : σ) (n : Nat) : Prop where
  kept : nEvents start = n
  delivered : ∃ calls last, processAll setEventInfo note calls start [] =
    some (.ok (last,List.range n)) ∧ seen last = n + 1

theorem Counts.exact {setEventInfo : σ → Offer σ} {nEvents seen : σ → Nat} {n bound : Nat}
    {Made : σ → Prop} (counts : Counts setEventInfo seen n bound Made) (small : n + 1 < bound)
    {start : σ} (made : Made start) (kept : nEvents start = n) (unseen : seen start = 0) :
    Exact setEventInfo nEvents seen start n := by
  obtain ⟨last,-,counted,run⟩ := counts.delivers small n start made (by omega) []
  rw [unseen,List.nil_append,← List.range_eq_range'] at run
  exact ⟨kept,n + 1,last,run,counted⟩

/-- A source that refuses no event does not let the loop end. -/
theorem processAll_endless {setEventInfo : σ → Offer σ} {process : UInt64 → S → Except E S}
    (Made : σ → Prop) (source : ∀ s, Made s → Made (setEventInfo s).source)
    (accepted : ∀ s, Made s → (setEventInfo s).accepted = true) (calls : Nat) (s : σ) (made : Made s)
    (state : S) {last : σ} {t : S} :
    processAll setEventInfo process calls s state ≠ some (.ok (last,t)) := by
  induction calls generalizing s state with
  | zero => simp [processAll]
  | succ calls ih =>
    intro ended
    rw [processAll,if_pos (accepted s made)] at ended
    cases processed : process (setEventInfo s).index state with
    | error e => simp [processed] at ended
    | ok next =>
      rw [processed] at ended
      exact ih (setEventInfo s).source (source s made) next ended

end Loop

namespace SingleThreaded

def Made (n : Nat) (s : Source) : Prop :=
  s.nEvents.toNat = n

theorem seenEvents_next (s : Source) (small : s.seenEvents.toNat + 1 < 2 ^ 32) :
    (s.seenEvents + 1).toNat = s.seenEvents.toNat + 1 := by
  rw [UInt32.toNat_add]
  exact Nat.mod_eq_of_lt small

theorem counts (n : Nat) : Counts setEventInfo (·.seenEvents.toNat) n (2 ^ 32) (Made n) where
  index s _ := UInt32.toNat_toUInt64 s.seenEvents
  accepted s made small := by
    rw [setEventInfo,decide_eq_true_iff,ge_iff_le,UInt32.le_iff_toNat_le,seenEvents_next s small,made]
    exact Nat.succ_le_iff
  source _ made := made
  seen s _ small := seenEvents_next s small

theorem construct_nEvents (iterations : UInt64) :
    (construct iterations).nEvents.toNat = iterations.toNat % 2 ^ 32 :=
  UInt64.toNat_toUInt32 iterations

/-- The source delivers as many events as the low 32 bits of the number say. -/
theorem construct_exact (iterations : UInt64) (small : iterations.toNat % 2 ^ 32 + 1 < 2 ^ 32) :
    Exact setEventInfo (·.nEvents.toNat) (·.seenEvents.toNat) (construct iterations)
      (iterations.toNat % 2 ^ 32) :=
  (counts _).exact small (construct_nEvents iterations) (construct_nEvents iterations) rfl

/-- With all 32 bits set no count is above the number of events. -/
theorem construct_endless (iterations : UInt64) (full : iterations.toNat % 2 ^ 32 + 1 = 2 ^ 32)
    (calls : Nat) (last : Source) (events : List Nat) :
    processAll setEventInfo note calls (construct iterations) [] ≠ some (.ok (last,events)) := by
  apply processAll_endless (Made (2 ^ 32 - 1)) (fun _ made => made)
  · intro s made
    rw [setEventInfo,decide_eq_true_iff,ge_iff_le,UInt32.le_iff_toNat_le,made]
    exact Nat.le_pred_of_lt (s.seenEvents + 1).toNat_lt
  · rw [Made,construct_nEvents]
    omega

end SingleThreaded

namespace TBB

theorem seenEvents_next (s : Source) (small : s.seenEvents.toNat + 1 < 2 ^ 64) :
    (s.seenEvents + 1).toNat = s.seenEvents.toNat + 1 := by
  rw [UInt64.toNat_add]
  exact Nat.mod_eq_of_lt small

theorem counts (n : Nat) :
    Counts setEventInfo (·.seenEvents.toNat) n (2 ^ 64) (fun s => s.nEvents.toNat = n) where
  index _ _ := rfl
  accepted s made small := by
    rw [setEventInfo,decide_eq_true_iff,ge_iff_le,UInt64.le_iff_toNat_le,seenEvents_next s small,made]
    exact Nat.succ_le_iff
  source _ made := made
  seen s _ small := seenEvents_next s small

theorem construct_exact (iterations : UInt64) (small : iterations.toNat + 1 < 2 ^ 64) :
    Exact setEventInfo (·.nEvents.toNat) (·.seenEvents.toNat) (construct iterations)
      iterations.toNat :=
  (counts _).exact small rfl rfl rfl

end TBB

def Agree (iterations : UInt64) : Prop :=
  Exact SingleThreaded.setEventInfo (·.nEvents.toNat) (·.seenEvents.toNat)
      (SingleThreaded.construct iterations) iterations.toNat ∧
    Exact TBB.setEventInfo (·.nEvents.toNat) (·.seenEvents.toNat)
      (TBB.construct iterations) iterations.toNat

theorem agree_iff (iterations : UInt64) : Agree iterations ↔ iterations.toNat + 1 < 2 ^ 32 := by
  constructor
  · rintro ⟨single,-⟩
    have kept := single.kept
    rw [SingleThreaded.construct_nEvents] at kept
    have bounded : iterations.toNat % 2 ^ 32 < 2 ^ 32 := Nat.mod_lt _ (by decide)
    by_contra large
    have full : iterations.toNat % 2 ^ 32 + 1 = 2 ^ 32 := by omega
    obtain ⟨calls,last,run,-⟩ := single.delivered
    exact SingleThreaded.construct_endless iterations full calls last _ run
  · intro small
    have low : iterations.toNat % 2 ^ 32 = iterations.toNat := Nat.mod_eq_of_lt (by omega)
    have single := SingleThreaded.construct_exact iterations (by rw [low]; exact small)
    rw [low] at single
    exact ⟨single,TBB.construct_exact iterations (by omega)⟩

/-- `0xffffffff` events are asked for, and the loop of the single-threaded framework never ends. -/
theorem agree_fails : ¬ Agree 4294967295 := by
  rintro ⟨single,-⟩
  obtain ⟨calls,last,run,-⟩ := single.delivered
  exact SingleThreaded.construct_endless 4294967295 rfl calls last _ run

end ToyMtFramework.SimpleSource
