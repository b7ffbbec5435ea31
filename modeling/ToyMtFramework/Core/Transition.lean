import Mathlib.Logic.Relation
import Mathlib.Data.Option.Basic

/-! Guarded runs of an executable transition function.
A machine is a partial function from a state and an action to the next state.
A guard restricts the actions a run may take in a state, so that "every run whose
steps all meet a condition" is one relation and its invariants are proved once. -/
namespace ToyMtFramework.Transition

variable {σ α : Type*}

def Step (next : σ → α → Option σ) (guard : σ → α → Prop) (s t : σ) : Prop :=
  ∃ a, guard s a ∧ next s a = some t

/-- The states that runs from `s` reach when every step meets the guard. -/
def Reaches (next : σ → α → Option σ) (guard : σ → α → Prop) : σ → σ → Prop :=
  Relation.ReflTransGen (Step next guard)

def Reachable (next : σ → α → Option σ) : σ → σ → Prop :=
  Reaches next fun _ _ => True

theorem Reaches.refl {next : σ → α → Option σ} {guard : σ → α → Prop} (s : σ) :
    Reaches next guard s s :=
  Relation.ReflTransGen.refl

theorem Reaches.step {next : σ → α → Option σ} {guard : σ → α → Prop} {s t u : σ}
    (run : Reaches next guard s t) (a : α) (admitted : guard t a) (taken : next t a = some u) :
    Reaches next guard s u :=
  Relation.ReflTransGen.tail run ⟨a,admitted,taken⟩

theorem Reaches.trans {next : σ → α → Option σ} {guard : σ → α → Prop} {s t u : σ}
    (first : Reaches next guard s t) (second : Reaches next guard t u) :
    Reaches next guard s u :=
  Relation.ReflTransGen.trans first second

/-- The induction rule of guarded runs: what holds at the start and is kept by
every admitted step holds of every state reached. -/
theorem Reaches.invariant {next : σ → α → Option σ} {guard : σ → α → Prop} {Inv : σ → Prop}
    (preserved : ∀ s a t, Inv s → guard s a → next s a = some t → Inv t)
    {s t : σ} (run : Reaches next guard s t) (start : Inv s) : Inv t := by
  induction run with
  | refl => exact start
  | tail _ step ih =>
    obtain ⟨a,admitted,taken⟩ := step
    exact preserved _ a _ ih admitted taken

theorem Reaches.weaken {next : σ → α → Option σ} {strong weak : σ → α → Prop}
    (implied : ∀ s a, strong s a → weak s a) {s t : σ} (run : Reaches next strong s t) :
    Reaches next weak s t :=
  Relation.ReflTransGen.mono (fun _ _ ⟨a,admitted,taken⟩ => ⟨a,implied _ a admitted,taken⟩) _ _ run

theorem Reaches.reachable {next : σ → α → Option σ} {guard : σ → α → Prop} {s t : σ}
    (run : Reaches next guard s t) : Reachable next s t :=
  run.weaken fun _ _ _ => trivial

def execute (next : σ → α → Option σ) : σ → List α → Option σ
  | s, [] => some s
  | s, a :: rest => (next s a).bind fun t => execute next t rest

def Admitted (next : σ → α → Option σ) (guard : σ → α → Prop) : σ → List α → Prop
  | _, [] => True
  | s, a :: rest => guard s a ∧ ∀ t ∈ next s a, Admitted next guard t rest

instance Admitted.decidable (next : σ → α → Option σ) (guard : σ → α → Prop)
    [∀ s a, Decidable (guard s a)] : ∀ (s : σ) (actions : List α),
      Decidable (Admitted next guard s actions)
  | _, [] => .isTrue trivial
  | s, a :: rest =>
    have (t : σ) := Admitted.decidable next guard t rest
    inferInstanceAs (Decidable (guard s a ∧ ∀ t ∈ next s a, Admitted next guard t rest))

theorem execute_reaches {next : σ → α → Option σ} {guard : σ → α → Prop} {s t : σ}
    (actions : List α) (admitted : Admitted next guard s actions)
    (ran : execute next s actions = some t) : Reaches next guard s t := by
  induction actions generalizing s with
  | nil =>
    obtain rfl : s = t := Option.some.inj ran
    exact Reaches.refl _
  | cons a rest ih =>
    obtain ⟨u,taken,ran⟩ := Option.bind_eq_some_iff.mp ran
    exact ((Reaches.refl s).step a admitted.1 taken).trans (ih (admitted.2 u taken) ran)

/-- The last of the actions is admitted where the others lead to. -/
theorem Admitted.last {next : σ → α → Option σ} {guard : σ → α → Prop} {s t : σ} {actions : List α} {a : α}
    (admitted : Admitted next guard s (actions ++ [a])) (ran : execute next s actions = some t) :
    Reaches next guard s t ∧ guard t a := by
  induction actions generalizing s with
  | nil =>
    obtain rfl : s = t := Option.some.inj ran
    exact ⟨Reaches.refl _,admitted.1⟩
  | cons b rest ih =>
    obtain ⟨u,taken,ran⟩ := Option.bind_eq_some_iff.mp ran
    obtain ⟨run,last⟩ := ih (admitted.2 u taken) ran
    exact ⟨((Reaches.refl s).step b admitted.1 taken).trans run,last⟩

theorem Admitted.trivially (next : σ → α → Option σ) (s : σ) (actions : List α) :
    Admitted next (fun _ _ => True) s actions := by
  induction actions generalizing s with
  | nil => trivial
  | cons a rest ih => exact ⟨trivial,fun t _ => ih t⟩

theorem execute_reachable {next : σ → α → Option σ} {s t : σ} (actions : List α)
    (ran : execute next s actions = some t) : Reachable next s t :=
  execute_reaches actions (Admitted.trivially next s actions) ran

/-- What every step of one machine does, another can do as well, unless nothing changes for it. -/
theorem Reaches.simulated {τ β : Type*} {next : σ → α → Option σ} {guard : σ → α → Prop}
    {other : τ → β → Option τ} {admits : τ → β → Prop} (view : σ → τ)
    (simulates : ∀ s a t, guard s a → next s a = some t →
      view t = view s ∨ ∃ b, admits (view s) b ∧ other (view s) b = some (view t))
    {s t : σ} (run : Reaches next guard s t) : Reaches other admits (view s) (view t) := by
  induction run with
  | refl => exact Reaches.refl _
  | tail _ step ih =>
    obtain ⟨a,admitted,taken⟩ := step
    rcases simulates _ a _ admitted taken with same | ⟨b,admitted,taken⟩
    · rw [same]
      exact ih
    · exact ih.step b admitted taken

section Recording
variable {ω : Type*} {next : σ → α → Option σ} {record : σ → α → ω → ω} {guard : σ → α → Prop}

/-- The machine with a record beside its state that every step brings up to date. -/
def recording (next : σ → α → Option σ) (record : σ → α → ω → ω) (s : σ × ω) (a : α) : Option (σ × ω) :=
  (next s.1 a).map fun t => (t,record s.1 a s.2)

theorem recording_taken {s t : σ × ω} {a : α} (taken : recording next record s a = some t) :
    next s.1 a = some t.1 ∧ t.2 = record s.1 a s.2 := by
  obtain ⟨u,moved,rfl⟩ := Option.map_eq_some_iff.mp taken
  exact ⟨moved,rfl⟩

/-- Every run can be recorded. -/
theorem Reaches.recorded {s t : σ} (run : Reaches next guard s t) (record : σ → α → ω → ω) (start : ω) :
    ∃ log, Reaches (recording next record) (fun u a => guard u.1 a) (s,start) (t,log) := by
  induction run with
  | refl => exact ⟨start,Reaches.refl _⟩
  | @tail u v _ step ih =>
    obtain ⟨log,run⟩ := ih
    obtain ⟨a,admitted,taken⟩ := step
    refine ⟨record u a log,run.step a admitted ?_⟩
    simp [recording,taken]

end Recording

end ToyMtFramework.Transition
