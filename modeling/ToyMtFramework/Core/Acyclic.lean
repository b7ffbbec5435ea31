import Mathlib.Logic.Relation
import Mathlib.Order.WellFounded
import Mathlib.Data.Set.Finite.Basic

/-! A relation without cycles is well founded as soon as only finitely many things
are on its left. -/
namespace ToyMtFramework.Acyclic

theorem wellFounded_of_acyclic {α : Type*} {r : α → α → Prop} (finite : {a | ∃ b, r a b}.Finite)
    (acyclic : ∀ a, ¬Relation.TransGen r a a) : WellFounded r := by
  have := finite.to_subtype
  let below (a b : {a | ∃ b, r a b}) : Prop := Relation.TransGen r a b
  have transitive : IsTrans _ below := ⟨fun _ _ _ => Relation.TransGen.trans⟩
  have irreflexive : Std.Irrefl below := ⟨fun a => acyclic a⟩
  have founded : WellFounded below := Finite.wellFounded_of_trans_of_irrefl below
  have inside (a : {a | ∃ b, r a b}) : Acc r a := by
    induction a using founded.induction with
    | _ a ih => exact Acc.intro _ fun b edge => ih ⟨b,⟨a,edge⟩⟩ (Relation.TransGen.single edge)
  exact ⟨fun a => Acc.intro _ fun b edge => inside ⟨b,⟨a,edge⟩⟩⟩

section Evaluate
variable {ν β : Type*} (needs : ν → List ν) (compute : ν → List β → β)

noncomputable def evaluate (below : WellFounded fun v w => v ∈ needs w) : ν → β :=
  below.fix fun w value => compute w ((needs w).attach.map fun v => value v.1 v.2)

theorem evaluate_eq (below : WellFounded fun v w => v ∈ needs w) (w : ν) :
    evaluate needs compute below w =
      compute w ((needs w).map (evaluate needs compute below)) := by
  unfold evaluate
  rw [WellFounded.fix_eq]
  exact congrArg (compute w) List.attach_map_val

end Evaluate

end ToyMtFramework.Acyclic
