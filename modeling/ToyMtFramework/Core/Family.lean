import ToyMtFramework.Core.Activities
import Mathlib.Logic.Function.Basic

/-! A family of machines of one kind in one pool. Each frame belongs to a member and acts on the
state of that member alone, so that what a machine keeps for itself every member of the family
keeps, whatever the others do. -/
namespace ToyMtFramework.Activities

variable {ι σ φ χ : Type*} [DecidableEq ι]

def Reaction.tag (i : ι) (shared : ι → σ) (r : Reaction σ φ) : Reaction (ι → σ) (ι × φ) :=
  ⟨Function.update shared i r.shared,r.calls.map fun f => (i,f),r.spawned.map fun f => (i,f)⟩

def members (i : ι) (bag : Multiset (ι × φ)) : Multiset φ :=
  (bag.filter fun f => f.1 = i).map Prod.snd

section Members
variable (i : ι)

@[simp] theorem members_zero : members i (0 : Multiset (ι × φ)) = 0 := rfl

@[simp] theorem members_cons_self (f : φ) (bag : Multiset (ι × φ)) :
    members i ((i,f) ::ₘ bag) = f ::ₘ members i bag := by
  simp [members]

theorem members_cons_of_ne {f : ι × φ} (other : f.1 ≠ i) (bag : Multiset (ι × φ)) :
    members i (f ::ₘ bag) = members i bag := by
  simp [members,other]

@[simp] theorem members_add (first second : Multiset (ι × φ)) :
    members i (first + second) = members i first + members i second := by
  simp [members]

theorem mem_members {f : φ} {bag : Multiset (ι × φ)} : f ∈ members i bag ↔ (i,f) ∈ bag := by
  simp [members]

theorem members_eq_zero {bag : Multiset (ι × φ)} : members i bag = 0 ↔ ∀ f ∈ bag, f.1 ≠ i := by
  rw [members,Multiset.map_eq_zero,Multiset.filter_eq_nil]

/-- A bag is told by what its members have. -/
theorem members_ext {first second : Multiset (ι × φ)} (same : ∀ i, members i first = members i second) :
    first = second := by
  induction first using Multiset.induction_on generalizing second with
  | empty =>
    refine (Multiset.eq_zero_of_forall_notMem fun f member => ?_).symm
    have none := (same f.1).symm
    rw [members_zero,members_eq_zero] at none
    exact none f member rfl
  | cons f first ih =>
    have member : f ∈ second := by
      rw [← mem_members,← same f.1,members_cons_self]
      exact Multiset.mem_cons_self f.2 _
    obtain ⟨others,rfl⟩ := Multiset.exists_cons_of_mem member
    rw [ih fun i => ?_]
    have split := same i
    by_cases own : f.1 = i
    · subst own
      rwa [members_cons_self,members_cons_self,Multiset.cons_inj_right] at split
    · rwa [members_cons_of_ne i own,members_cons_of_ne i own] at split

theorem members_tag_self (frames : List φ) :
    members i (↑(frames.map fun f => (i,f)) : Multiset (ι × φ)) = ↑frames := by
  induction frames with
  | nil => rfl
  | cons f frames ih =>
    rw [List.map_cons,← Multiset.cons_coe,members_cons_self,ih,Multiset.cons_coe]

theorem members_tag_of_ne {j : ι} (other : j ≠ i) (frames : List φ) :
    members i (↑(frames.map fun f => (j,f)) : Multiset (ι × φ)) = 0 := by
  rw [members_eq_zero]
  intro f member
  obtain ⟨g,_,rfl⟩ := List.mem_map.mp (Multiset.mem_coe.mp member)
  exact other

end Members

@[simp] theorem Reaction.tag_shared (i : ι) (shared : ι → σ) (r : Reaction σ φ) :
    (r.tag i shared).shared = Function.update shared i r.shared := rfl

theorem Reaction.tag_frames (i : ι) (shared : ι → σ) (r : Reaction σ φ) :
    (r.tag i shared).frames = ↑((r.calls ++ r.spawned).map fun f => (i,f)) := by
  rw [Reaction.frames,Reaction.tag,List.map_append]

/-- What the reaction of a member preserves for it holds of every member afterwards. -/
theorem members_tag {I : ι → σ → Multiset φ → Prop} {shared : ι → σ} {f : ι × φ}
    {rest : Multiset (ι × φ)} {r : Reaction σ φ}
    (holds : ∀ i, I i (shared i) (members i (f ::ₘ rest)))
    (preserved : I f.1 (shared f.1) (f.2 ::ₘ members f.1 rest) →
      I f.1 r.shared (r.frames + members f.1 rest)) (i : ι) :
    I i ((r.tag f.1 shared).shared i) (members i ((r.tag f.1 shared).frames + rest)) := by
  obtain ⟨j,f⟩ := f
  have before := holds i
  rw [members_add,Reaction.tag_frames]
  by_cases other : j = i
  · subst other
    rw [members_cons_self] at before
    rw [members_tag_self,Reaction.tag_shared,Function.update_self]
    exact preserved before
  · rw [members_cons_of_ne i other] at before
    rw [members_tag_of_ne i other,zero_add,Reaction.tag_shared,Function.update_of_ne (Ne.symm other)]
    exact before

end ToyMtFramework.Activities
