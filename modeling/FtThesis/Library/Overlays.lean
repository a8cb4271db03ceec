/-
Values that are laid over each other.

A patch has a value at some of the places only, and leaves the others as they are.

* `lay`: a patch laid over what is there;
* `foldl_lay_of_none`: where no patch has a value, all is left as it was;
* `foldl_lay_of_highest`: when the patches are laid one after another in the order of their
  keys, the highest one that has a value at a place decides.
-/
import Mathlib.Tactic

namespace Overlays

variable {ι α β : Type*}

/-- The values `m`, with those of the patch `i` over them. -/
def lay (value : ι → α → Option β) (m : α → β) (i : ι) : α → β := fun q => (value i q).getD (m q)

section

variable {value : ι → α → Option β} {m : α → β} {l l₁ l₂ : List ι} {i : ι} {q : α} {b : β}

/-- Where no patch has a value, all is left as it was. -/
lemma foldl_lay_of_none (h : ∀ i ∈ l, value i q = none) : l.foldl (lay value) m q = m q := by
  induction l generalizing m with
  | nil => rfl
  | cons i l ih =>
      obtain ⟨hi, hl⟩ := List.forall_mem_cons.mp h
      rw [List.foldl_cons, ih hl, lay, hi, Option.getD_none]

/-- The last patch that has a value decides. -/
lemma foldl_lay_of_last (hi : value i q = some b) (h : ∀ j ∈ l₂, value j q = none) :
    (l₁ ++ i :: l₂).foldl (lay value) m q = b := by
  rw [List.foldl_append, List.foldl_cons, foldl_lay_of_none h, lay, hi, Option.getD_some]

/-- In the order of the keys, the highest patch that has a value decides. -/
theorem foldl_lay_of_highest {key : ι → ℕ} (hsorted : l.Pairwise fun i j => key i < key j)
    (hmem : i ∈ l) (hi : value i q = some b)
    (hhighest : ∀ j ∈ l, value j q ≠ none → key j ≤ key i) : l.foldl (lay value) m q = b := by
  obtain ⟨l₁, l₂, rfl⟩ := List.append_of_mem hmem
  refine foldl_lay_of_last hi fun j hj => ?_
  have hlt : key i < key j :=
    (List.pairwise_cons.mp (List.pairwise_append.mp hsorted).2.1).1 j hj
  by_contra hne
  exact absurd (hhighest j (by simp [hj]) hne) (Nat.not_le.mpr hlt)

end

end Overlays
