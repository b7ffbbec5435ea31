import ToyMtFramework.Core.Activities

/-! Activities some of which are tasks of serial queues. A frame may be a task that waits in a
queue, or be part of the task that a queue executes. A waiting task begins only when its queue
executes none; that this keeps the tasks of each queue apart is proved here once. -/
namespace ToyMtFramework.Activities

variable {σ φ χ κ : Type*} [DecidableEq κ]

structure Queues (φ κ : Type*) where
  waits : φ → Option κ
  executes : φ → Option κ

def Queues.idle (queues : Queues φ κ) (s : Pool σ φ) (q : κ) : Bool :=
  s.threads.flatten.all fun f => queues.executes f ≠ some q

def Queues.step (queues : Queues φ κ) (react : σ → φ → χ → Option (Reaction σ φ)) (s : Pool σ φ)
    (k : Nat) (choice : χ) : Option (Pool σ φ) :=
  match (s.top k).bind queues.waits with
  | some q => if queues.idle s q then s.step react k choice else none
  | none => s.step react k choice

def Queues.inside (queues : Queues φ κ) (q : κ) (f : φ) : Nat :=
  if queues.executes f = some q then 1 else 0

/-- A task is executed by one frame, which only the beginning of the task brings about. -/
def Queues.Kept (queues : Queues φ κ) (react : σ → φ → χ → Option (Reaction σ φ)) : Prop :=
  ∀ s f choice r, react s f choice = some r → ∀ q,
    weigh (queues.inside q) r.frames ≤ queues.inside q f + if queues.waits f = some q then 1 else 0

def Queues.Serial (queues : Queues φ κ) (bag : Multiset φ) : Prop :=
  ∀ q, weigh (queues.inside q) bag ≤ 1

theorem Queues.idle_weigh {queues : Queues φ κ} {s : Pool σ φ} {q : κ} (idle : queues.idle s q = true) :
    weigh (queues.inside q) s.bag = 0 := by
  by_contra busy
  obtain ⟨f,member,inside⟩ := (weigh_pos_iff _ _).mp (Nat.pos_of_ne_zero busy)
  have apart := List.all_eq_true.mp idle f (Multiset.mem_coe.mp member)
  rw [Queues.inside,if_neg (by simpa using apart)] at inside
  exact Nat.lt_irrefl 0 inside

theorem Queues.step_idle {queues : Queues φ κ} {react : σ → φ → χ → Option (Reaction σ φ)}
    {s t : Pool σ φ} {k : Nat} {choice : χ} (taken : queues.step react s k choice = some t) :
    s.step react k choice = some t ∧
      ∀ f, s.top k = some f → ∀ q, queues.waits f = some q → queues.idle s q = true := by
  unfold Queues.step at taken
  split at taken
  · rename_i q waiting
    obtain ⟨idle,taken⟩ := Option.ite_none_right_eq_some.mp taken
    refine ⟨taken,fun f top p waits => ?_⟩
    rw [top,Option.bind_some,waits] at waiting
    obtain rfl := Option.some.inj waiting
    exact idle
  · rename_i free
    refine ⟨taken,fun f top q waits => ?_⟩
    rw [top,Option.bind_some,waits] at free
    cases free

theorem Queues.Serial.step {queues : Queues φ κ} {react : σ → φ → χ → Option (Reaction σ φ)}
    (kept : queues.Kept react) {s t : Pool σ φ} {k : Nat} {choice : χ} (serial : queues.Serial s.bag)
    (taken : queues.step react s k choice = some t) : queues.Serial t.bag := by
  obtain ⟨taken,idle⟩ := Queues.step_idle taken
  obtain ⟨f,r,rest,reacts,_,before,after,top⟩ := Pool.step_bag taken
  intro q
  have one := serial q
  have frames := kept _ _ _ _ reacts q
  rw [after,weigh_add]
  rw [before,weigh_cons] at one
  by_cases waiting : queues.waits f = some q
  · have none := Queues.idle_weigh (idle f top q waiting)
    rw [before,weigh_cons] at none
    rw [if_pos waiting] at frames
    omega
  · rw [if_neg waiting] at frames
    omega

end ToyMtFramework.Activities
