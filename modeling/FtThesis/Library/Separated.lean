/-
Lists that are cut at a separator.

* `List.not_mem_of_mem_splitOn`: the parts are free of the separator;
* `List.infix_of_mem_splitOn`: each part occurs in the list;
* `List.isPrefix_append_cons_iff`: a list without the separator is a beginning of the first part;
* `List.span_append_of_head`: a list is cut where what follows begins.
-/
import Mathlib.Tactic

variable {α : Type*} [DecidableEq α]

lemma List.not_mem_of_mem_splitOn {a : α} {t part : List α} (h : part ∈ t.splitOn a) :
    a ∉ part := by
  induction t generalizing part with
  | nil =>
      obtain rfl : part = [] := by simpa using h
      exact List.not_mem_nil
  | cons x t ih =>
      rw [List.splitOn_cons_eq_if_modifyHead] at h
      split_ifs at h with hx
      · rcases List.mem_cons.mp h with rfl | h
        · exact List.not_mem_nil
        · exact ih h
      · obtain ⟨first, parts, hsplit⟩ := List.exists_cons_of_ne_nil (List.splitOn_ne_nil a t)
        rw [hsplit, List.modifyHead_cons] at h
        rcases List.mem_cons.mp h with rfl | h
        · have hne : a ≠ x := fun heq => hx (by simp [heq])
          have hfirst : a ∉ first := ih (by simp [hsplit])
          simp [hne, hfirst]
        · exact ih (by simp [hsplit, h])

lemma List.infix_of_mem_splitOn {a : α} {t part : List α} (h : part ∈ t.splitOn a) :
    part <:+: t := by
  have hjoin : [a].intercalate (t.splitOn a) = t := List.intercalate_splitOn a
  obtain ⟨before, after, hsplit⟩ := List.append_of_mem h
  have hoccurs : ∀ parts : List (List α), part <:+: [a].intercalate (parts ++ part :: after) := by
    intro parts
    induction parts with
    | nil =>
        cases after with
        | nil => simp
        | cons next after =>
            rw [List.nil_append, List.intercalate_cons_cons, List.append_assoc]
            exact List.infix_append' [] part _
    | cons first parts ih =>
        obtain ⟨next, rest, hrest⟩ :=
          List.exists_cons_of_ne_nil (l := parts ++ part :: after) (by simp)
        rw [List.cons_append, hrest, List.intercalate_cons_cons, ← hrest]
        exact ih.trans (List.suffix_append _ _).isInfix
  rw [← hjoin, hsplit]
  exact hoccurs before

omit [DecidableEq α] in
lemma List.isPrefix_append_cons_iff {a : α} {p : List α} (h : a ∉ p) (t rest : List α) :
    p <+: t ++ a :: rest ↔ p <+: t := by
  refine ⟨fun hp => ?_, fun hp => hp.trans (List.prefix_append _ _)⟩
  rcases List.prefix_or_prefix_of_prefix hp (List.prefix_append t (a :: rest)) with hp' | ht
  · exact hp'
  · obtain ⟨p', rfl⟩ := ht
    cases p' with
    | nil => simp
    | cons b p' =>
        rw [List.prefix_append_right_inj, List.cons_prefix_cons] at hp
        exact absurd (by simp [hp.1]) h

omit [DecidableEq α] in
/-- The elements with a property are cut off from what begins with another one. -/
lemma List.span_append_of_head {p : α → Bool} {l rest : List α} (hl : ∀ x ∈ l, p x = true)
    (hrest : ∀ x ∈ rest.head?, p x = false) : (l ++ rest).span p = (l, rest) := by
  have htake : rest.takeWhile p = [] ∧ rest.dropWhile p = rest := by
    cases rest with
    | nil => exact ⟨rfl, rfl⟩
    | cons x rest =>
        have hx : p x = false := hrest x rfl
        simp [hx]
  rw [List.span_eq_takeWhile_dropWhile, List.takeWhile_append_of_pos hl,
    List.dropWhile_append_of_pos hl, htake.1, htake.2, List.append_nil]
