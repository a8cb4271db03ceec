/-
Names that are replaced in the text of a chain.

* `replace_induction`: a text, from one occurrence of the old name to the next one;
* `replace_append_cons`, `replace_commas`: a name without a comma is replaced in each part of a text
  by itself;
* `eq_of_replace_eq_self`: a text in which the old name occurs is changed by another new name;
* `substitute`: the parts of a text, with the new name in place of the old one;
* `splitOn_replace_iff`: when the parts of a text are those after the replacement.
-/
import FtThesis.Tsa.Requests
import FtThesis.Library.Separated

namespace FtThesis.Tsa

section

variable {old new : Str}

/-! ### From one occurrence to the next -/

/-- The characters of an occurrence are left out. -/
lemma replaceFrom_eq_drop (skip : ℕ) (t : Str) :
    replaceFrom old new skip t = replaceFrom old new 0 (t.drop skip) := by
  induction t generalizing skip with
  | nil => simp [replaceFrom]
  | cons c t ih =>
      cases skip with
      | zero => rfl
      | succ skip => exact ih skip

lemma replace_old_append (hold : old ≠ []) (t : Str) :
    replace (old ++ t) old new = new ++ replace t old new := by
  obtain ⟨c, old, rfl⟩ := List.exists_cons_of_ne_nil hold
  have hprefix : c :: old <+: c :: (old ++ t) := List.prefix_append (c :: old) t
  rw [replace, if_neg hold, replace, if_neg hold, List.cons_append, replaceFrom, if_pos hprefix,
    replaceFrom_eq_drop]
  simp

lemma replace_cons (hold : old ≠ []) {c : Char} {t : Str} (h : ¬ old <+: c :: t) :
    replace (c :: t) old new = c :: replace t old new := by
  rw [replace, if_neg hold, replace, if_neg hold, replaceFrom, if_neg h]

lemma replace_nil (hold : old ≠ []) : replace [] old new = [] := by
  rw [replace, if_neg hold, replaceFrom]

/-- A text is empty, or it begins with an occurrence of a name, or with another character. -/
@[elab_as_elim]
lemma replace_induction {P : Str → Prop} (hold : old ≠ []) (nil : P [])
    (found : ∀ t, P t → P (old ++ t)) (skipped : ∀ c t, ¬ old <+: c :: t → P t → P (c :: t))
    (t : Str) : P t := by
  induction hn : t.length using Nat.strong_induction_on generalizing t with
  | _ n ih =>
      subst hn
      cases t with
      | nil => exact nil
      | cons c t =>
          by_cases h : old <+: c :: t
          · obtain ⟨rest, hrest⟩ := h
            rw [← hrest] at ih ⊢
            refine found rest (ih _ ?_ rest rfl)
            have hpos := List.length_pos_of_ne_nil hold
            rw [List.length_append]
            omega
          · exact skipped c t h (ih _ (by simp) t rfl)

/-! ### Texts with commas -/

/-- A name without a comma is replaced before and behind a comma. -/
lemma replace_append_cons (hcomma : ',' ∉ old) (t rest : Str) :
    replace (t ++ ',' :: rest) old new = replace t old new ++ ',' :: replace rest old new := by
  by_cases hold : old = []
  · subst hold
    simp [replace]
  · induction t using replace_induction hold with
    | nil =>
        have hnot : ¬ old <+: ',' :: rest := by
          rw [← List.nil_append (',' :: rest), List.isPrefix_append_cons_iff hcomma]
          simpa using hold
        rw [List.nil_append, replace_cons hold hnot, replace_nil hold, List.nil_append]
    | found t ih => rw [List.append_assoc, replace_old_append hold, ih, replace_old_append hold,
        List.append_assoc]
    | skipped c t h ih =>
        have hnot : ¬ old <+: c :: (t ++ ',' :: rest) := by
          rw [← List.cons_append, List.isPrefix_append_cons_iff hcomma]
          exact h
        rw [List.cons_append, replace_cons hold hnot, ih, replace_cons hold h, List.cons_append]

/-- It is replaced in each part by itself. -/
lemma replace_commas (hcomma : ',' ∉ old) {parts : List Str} (hparts : parts ≠ []) :
    replace (commas parts) old new = commas (parts.map fun part => replace part old new) := by
  induction parts with
  | nil => exact absurd rfl hparts
  | cons part parts ih =>
      cases parts with
      | nil => simp [commas]
      | cons part' parts =>
          have hjoin : ∀ p q : Str, ∀ ps, commas (p :: q :: ps) = p ++ ',' :: commas (q :: ps) := by
            intro p q ps
            rw [commas, List.intercalate_cons_cons, List.append_assoc]
            rfl
          rw [hjoin, replace_append_cons hcomma, ih (List.cons_ne_nil _ _)]
          exact (hjoin _ _ _).symm

/-! ### Texts that stay as they are -/

lemma replace_of_not_infix {t : Str} (h : ¬ old <:+: t) : replace t old new = t := by
  have hold : old ≠ [] := by
    rintro rfl
    exact h (List.nil_infix)
  induction t using replace_induction hold with
  | nil => exact replace_nil hold
  | found t _ => exact absurd (List.prefix_append old t).isInfix h
  | skipped c t hskipped ih =>
      have hrest : ¬ old <:+: t := fun hoccurs => h (hoccurs.trans (List.suffix_cons c t).isInfix)
      rw [replace_cons hold hskipped, ih hrest]

lemma replace_self (old new : Str) : replace old old new = new := by
  by_cases hold : old = []
  · simp [replace, hold]
  · have h := @replace_old_append old new hold []
    rwa [List.append_nil, replace_nil hold, List.append_nil] at h

lemma replace_same (t old : Str) : replace t old old = t := by
  by_cases hold : old = []
  · simp [replace, hold]
  · induction t using replace_induction hold with
    | nil => exact replace_nil hold
    | found t ih => rw [replace_old_append hold, ih]
    | skipped c t hskipped ih => rw [replace_cons hold hskipped, ih]

/-- A text becomes longer only with a longer name, and shorter only with a shorter one. -/
lemma length_replace (hold : old ≠ []) (t : Str) :
    (new.length ≤ old.length → (replace t old new).length ≤ t.length) ∧
      (old.length ≤ new.length → t.length ≤ (replace t old new).length) := by
  induction t using replace_induction hold with
  | nil => simp [replace_nil hold]
  | found t ih =>
      rw [replace_old_append hold, List.length_append, List.length_append]
      omega
  | skipped c t hskipped ih =>
      rw [replace_cons hold hskipped, List.length_cons, List.length_cons]
      omega

/-- A text in which the old name occurs is changed. -/
lemma eq_of_replace_eq_self {t : Str} (h : replace t old new = t) (hoccurs : old <:+: t) :
    old = new := by
  by_cases hold : old = []
  · subst hold
    have hlength : t.length * (new.length + 1) + new.length = t.length := by
      simpa [replace] using congrArg List.length h
    have hle : t.length ≤ t.length * (new.length + 1) := Nat.le_mul_of_pos_right _ (by simp)
    exact (List.eq_nil_of_length_eq_zero (by omega)).symm
  · induction t using replace_induction hold with
    | nil => exact absurd (List.eq_nil_of_infix_nil hoccurs) hold
    | found t _ =>
        rw [replace_old_append hold] at h
        have hlength := congrArg List.length h
        rw [List.length_append, List.length_append] at hlength
        have heq : new.length = old.length := by
          obtain ⟨hle, hge⟩ := @length_replace old new hold t
          omega
        exact (List.append_inj h heq).1.symm
    | skipped c t hskipped ih =>
        rw [replace_cons hold hskipped] at h
        have hrest : old <:+: t := (List.infix_cons_iff.mp hoccurs).resolve_left hskipped
        exact ih (List.cons.inj h).2 hrest

/-! ### The parts of a text -/

/-- The parts of a text, with the new name in place of the old one. -/
def substitute (old new : Str) (parts : List Str) : List Str :=
  parts.map fun part => if part = old then new else part

lemma not_mem_replace {a : Char} {t : Str} (ht : a ∉ t) (hnew : a ∉ new) :
    a ∉ replace t old new := by
  by_cases hold : old = []
  · simp only [replace, if_pos hold, List.mem_append, List.mem_flatMap, List.mem_singleton]
    rintro (⟨c, hc, hmem | rfl⟩ | hmem)
    · exact hnew hmem
    · exact ht hc
    · exact hnew hmem
  · induction t using replace_induction hold with
    | nil => rwa [replace_nil hold]
    | found t ih =>
        rw [replace_old_append hold, List.mem_append]
        exact not_or.mpr ⟨hnew, ih fun hmem => ht (List.mem_append_right _ hmem)⟩
    | skipped c t hskipped ih =>
        obtain ⟨hc, ht⟩ := not_or.mp (List.mem_cons.not.mp ht)
        rw [replace_cons hold hskipped, List.mem_cons]
        exact not_or.mpr ⟨hc, ih ht⟩

lemma splitOn_replace (hold : ',' ∉ old) (hnew : ',' ∉ new) (t : Str) :
    (replace t old new).splitOn ',' = (t.splitOn ',').map fun part => replace part old new := by
  have hjoin : commas (t.splitOn ',') = t := List.intercalate_splitOn ','
  have hne : t.splitOn ',' ≠ [] := List.splitOn_ne_nil ',' t
  rw [← hjoin, replace_commas hold hne, hjoin, commas, List.splitOn_intercalate]
  · intro part hpart
    obtain ⟨part', hpart', rfl⟩ := List.mem_map.mp hpart
    exact not_mem_replace (List.not_mem_of_mem_splitOn hpart') hnew
  · simp

/-- The parts of a text with the old name are those after its replacement, exactly if the new name
has no comma and no other part contains the old one. -/
lemma splitOn_replace_iff {t : Str} (h : old ∈ t.splitOn ',') :
    (replace t old new).splitOn ',' = substitute old new (t.splitOn ',') ↔
      ',' ∉ new ∧ (old = new ∨ ∀ part ∈ t.splitOn ',', old <:+: part → part = old) := by
  have hold : ',' ∉ old := List.not_mem_of_mem_splitOn h
  constructor
  · intro heq
    have hnew : ',' ∉ new := by
      have hmem : new ∈ (replace t old new).splitOn ',' := by
        rw [heq]
        exact List.mem_map.mpr ⟨old, h, if_pos rfl⟩
      exact List.not_mem_of_mem_splitOn hmem
    rw [splitOn_replace hold hnew, substitute, List.map_inj_left] at heq
    refine ⟨hnew, or_iff_not_imp_left.mpr fun hne part hpart hoccurs => ?_⟩
    by_contra hother
    have hself : replace part old new = part := by rw [heq part hpart, if_neg hother]
    exact hne (eq_of_replace_eq_self hself hoccurs)
  · rintro ⟨hnew, hparts⟩
    rw [splitOn_replace hold hnew, substitute, List.map_inj_left]
    intro part hpart
    by_cases hpart' : part = old
    · rw [if_pos hpart', hpart', replace_self]
    · rw [if_neg hpart']
      rcases hparts with rfl | hparts
      · exact replace_same part old
      · exact replace_of_not_infix fun hoccurs => hpart' (hparts part hpart hoccurs)

end

end FtThesis.Tsa
