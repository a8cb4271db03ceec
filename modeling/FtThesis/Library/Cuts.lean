/-
Two lists that are cut behind what they have in common.

Both lists are followed as long as they have the same entries.  The first entry of the one that
the other does not have there is looked for further on in the other list: if it is there, the
other list is cut behind it too, and the entries in front of it are skipped.

* `Cut`: the common entries, the skipped ones, and what is left of the two lists;
* `Cut.left_eq`, `Cut.right_eq`: the lists are put together from these;
* `Cut.exists_cut`, `Cut.unique`: there is one cut of two lists;
* `Cut.of_prefix`: a list is cut behind each of its beginnings.
-/
import Mathlib.Tactic

namespace ListCuts

variable {α : Type*}

/-- The lists are cut behind the `common` entries of both, and the `skipped` ones of the second
one. -/
inductive Cut : (as bs common skipped leftAs leftBs : List α) → Prop
  | nil (bs : List α) : Cut [] bs [] [] [] bs
  | missing (a : α) (as bs : List α) : a ∉ bs → Cut (a :: as) bs [] [] (a :: as) bs
  | skip (a : α) (as : List α) {bs : List α} (skipped leftBs : List α) :
      bs = skipped ++ a :: leftBs → skipped ≠ [] → a ∉ skipped →
      Cut (a :: as) bs [a] skipped as leftBs
  | cons (a : α) {as bs common skipped leftAs leftBs : List α} :
      Cut as bs common skipped leftAs leftBs →
      Cut (a :: as) (a :: bs) (a :: common) skipped leftAs leftBs

namespace Cut

variable {as bs common skipped leftAs leftBs : List α}

section

variable (h : Cut as bs common skipped leftAs leftBs)

include h

/-- The first list begins with the common entries. -/
lemma left_eq : as = common ++ leftAs := by
  induction h with
  | nil => rfl
  | missing => rfl
  | skip => rfl
  | cons a _ ih => rw [List.cons_append, ← ih]

/-- The second list begins with the common entries and the skipped ones, in some order. -/
lemma right_eq : ∃ first, bs = first ++ leftBs ∧ first.Perm (common ++ skipped) := by
  induction h with
  | nil bs => exact ⟨[], rfl, .refl _⟩
  | missing a as bs hmem => exact ⟨[], rfl, .refl _⟩
  | skip a as skipped leftBs hbs hne hmem =>
      refine ⟨skipped ++ [a], by rw [hbs, List.append_assoc, List.singleton_append], ?_⟩
      exact List.perm_append_comm
  | cons a _ ih =>
      obtain ⟨first, hfirst, hperm⟩ := ih
      exact ⟨a :: first, by rw [List.cons_append, ← hfirst], hperm.cons a⟩

lemma take_left : as.take common.length = common := by
  rw [h.left_eq, List.take_left]

lemma drop_left : as.drop common.length = leftAs := by
  rw [h.left_eq, List.drop_left]

lemma take_right : (bs.take (common.length + skipped.length)).Perm (common ++ skipped) := by
  obtain ⟨first, rfl, hperm⟩ := h.right_eq
  rw [← List.length_append, ← hperm.length_eq, List.take_left]
  exact hperm

lemma drop_right : bs.drop (common.length + skipped.length) = leftBs := by
  obtain ⟨first, rfl, hperm⟩ := h.right_eq
  rw [← List.length_append, ← hperm.length_eq, List.drop_left]

lemma length_right_le : common.length + skipped.length ≤ bs.length := by
  obtain ⟨first, rfl, hperm⟩ := h.right_eq
  rw [← List.length_append, ← hperm.length_eq, List.length_append]
  exact Nat.le_add_right ..

/-- The second list has the common entries. -/
lemma common_subset : common ⊆ bs := by
  obtain ⟨first, rfl, hperm⟩ := h.right_eq
  exact fun a ha => List.mem_append_left _ (hperm.symm.subset (List.mem_append_left _ ha))

omit h in
/-- The entries in front of the first `a`, and those behind it. -/
lemma first_unique {a : α} {l₁ l₂ l₁' l₂' : List α} (h : l₁ ++ a :: l₂ = l₁' ++ a :: l₂')
    (h₁ : a ∉ l₁) (h₁' : a ∉ l₁') : l₁ = l₁' ∧ l₂ = l₂' := by
  induction l₁ generalizing l₁' with
  | nil =>
      cases l₁' with
      | nil => exact ⟨rfl, (List.cons.inj h).2⟩
      | cons b l₁' => exact absurd ((List.cons.inj h).1 ▸ List.mem_cons_self) h₁'
  | cons b l₁ ih =>
      cases l₁' with
      | nil => exact absurd ((List.cons.inj h).1 ▸ List.mem_cons_self) h₁
      | cons b' l₁' =>
          obtain ⟨rfl, hrest⟩ := List.cons.inj h
          obtain ⟨rfl, rfl⟩ := ih hrest (List.not_mem_of_not_mem_cons h₁)
            (List.not_mem_of_not_mem_cons h₁')
          exact ⟨rfl, rfl⟩

omit h in
/-- When the lists begin with the same entry, nothing is skipped in front of it. -/
lemma not_skips {a : α} {skipped : List α} (hbs : a :: bs = skipped ++ a :: leftBs)
    (hne : skipped ≠ []) (hmem : a ∉ skipped) : False := by
  cases skipped with
  | nil => exact hne rfl
  | cons b skipped => exact hmem ((List.cons.inj hbs).1 ▸ List.mem_cons_self)

/-- When the lists have nothing in common, no entry is skipped. -/
lemma skipped_eq_nil (hcommon : common = []) : skipped = [] := by
  cases h with
  | nil => rfl
  | missing => rfl
  | skip => exact absurd hcommon (List.cons_ne_nil _ _)
  | cons => exact absurd hcommon (List.cons_ne_nil _ _)

/-- There is only one cut of two lists. -/
theorem unique {common' skipped' leftAs' leftBs' : List α}
    (h' : Cut as bs common' skipped' leftAs' leftBs') :
    common = common' ∧ skipped = skipped' ∧ leftAs = leftAs' ∧ leftBs = leftBs' := by
  induction h generalizing common' skipped' leftAs' leftBs' with
  | nil bs =>
      cases h'
      exact ⟨rfl, rfl, rfl, rfl⟩
  | missing a as bs hmem =>
      cases h' with
      | missing => exact ⟨rfl, rfl, rfl, rfl⟩
      | skip _ _ _ _ hbs _ _ => exact absurd (hbs ▸ by simp) hmem
      | cons => exact absurd List.mem_cons_self hmem
  | skip a as skipped leftBs hbs hne hmem =>
      cases h' with
      | missing _ _ _ hmem' => exact absurd (hbs ▸ by simp) hmem'
      | skip _ _ _ _ hbs' _ hmem' =>
          obtain ⟨rfl, rfl⟩ := first_unique (hbs.symm.trans hbs') hmem hmem'
          exact ⟨rfl, rfl, rfl, rfl⟩
      | cons => exact (not_skips hbs hne hmem).elim
  | cons a hcut ih =>
      cases h' with
      | missing _ _ _ hmem => exact absurd List.mem_cons_self hmem
      | skip _ _ _ _ hbs hne hmem => exact (not_skips hbs hne hmem).elim
      | cons _ hcut' =>
          obtain ⟨rfl, rfl, rfl, rfl⟩ := ih hcut'
          exact ⟨rfl, rfl, rfl, rfl⟩

end

/-- Two lists have a cut. -/
lemma exists_cut (as bs : List α) :
    ∃ common skipped leftAs leftBs, Cut as bs common skipped leftAs leftBs := by
  induction as generalizing bs with
  | nil => exact ⟨_, _, _, _, .nil bs⟩
  | cons a as ih =>
      by_cases hmem : a ∈ bs
      · obtain ⟨skipped, leftBs, rfl, hskipped⟩ := List.eq_append_cons_of_mem hmem
        rcases eq_or_ne skipped [] with rfl | hne
        · obtain ⟨common, skipped, leftAs, leftBs, hcut⟩ := ih leftBs
          exact ⟨_, _, _, _, hcut.cons a⟩
        · exact ⟨_, _, _, _, .skip a as skipped leftBs rfl hne hskipped⟩
      · exact ⟨_, _, _, _, .missing a as bs hmem⟩

/-- A list is cut behind each of its beginnings. -/
lemma of_prefix (common as : List α) : Cut (common ++ as) common common [] as [] := by
  induction common with
  | nil =>
      cases as with
      | nil => exact .nil []
      | cons a as => exact .missing a as [] List.not_mem_nil
  | cons a common ih => exact .cons a ih

end Cut

end ListCuts
