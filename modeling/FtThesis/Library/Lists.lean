/-
Lists sorted or grouped by a key, lists of pairs, two lists side by side, lists that grow at their
end, and the last entry of a list that has a property.

* `filter_le_eq_take`: the entries with a key up to a bound are a beginning of
  the sorted list, as long as there are such entries;
* `take_perm_filter_iff`: a beginning of a sorted list consists of these entries
  exactly when it has as many entries;
* `eq_of_perm`: with different keys there is one sorted list only;
* `List.mem_of_lookup_eq_some`, `List.lookup_eq_some_iff_mem`, `List.lookup_map_snd`: what is
  found in a list of pairs, and what is found when the values change;
* `List.Sublist.filter_mem_eq`: a part of a list without repetitions, by its entries;
* `unmatched`: the entries of a list that another list does not have at the same
  position, with `mem_unmatched_iff`;
* `appendNew`: an entry is appended unless it is there, with `mem_foldl_appendNew`
  and `find?_foldl_appendNew` for many entries, one after the other;
* `List.eq_nil_of_eq_append_cons`: a list of at most one entry, cut at an entry;
* `exists_last`, `last_unique`: there is one last entry with a property;
* `Grouped.keys_ne`: a list that is grouped by a key, cut between two groups.
-/
import Mathlib.Tactic

namespace SortedLists

variable {α : Type*} {key : α → ℕ}

/-- In a sorted list the entries with a key up to `v` come first. -/
lemma filter_le_eq_take {l : List α} (h : l.Pairwise fun a b => key a ≤ key b) (v : ℕ) :
    l.filter (key · ≤ v) = l.take (l.countP (key · ≤ v)) := by
  induction l with
  | nil => rfl
  | cons a l ih =>
      rw [List.pairwise_cons] at h
      by_cases ha : key a ≤ v
      · simp [ha, ih h.2]
      · have hall : ∀ b ∈ l, ¬ key b ≤ v := fun b hb hle => ha ((h.1 b hb).trans hle)
        have hnone : l.filter (key · ≤ v) = [] := by simpa using hall
        have hzero : l.countP (key · ≤ v) = 0 := by simpa using hall
        simp [ha, hnone, hzero]

/-- The first `k` entries in sorted order are the entries with a key up to `v`
exactly when there are `k` of these. -/
theorem take_perm_filter_iff {l s : List α} (hperm : s.Perm l)
    (h : s.Pairwise fun a b => key a ≤ key b) {k : ℕ} (hk : k ≤ l.length) (v : ℕ) :
    (s.take k).Perm (l.filter (key · ≤ v)) ↔ l.countP (key · ≤ v) = k := by
  have hcount : l.countP (key · ≤ v) = s.countP (key · ≤ v) := (hperm.countP_eq _).symm
  constructor
  · intro htake
    have hlen := htake.length_eq
    rw [List.length_take, hperm.length_eq, min_eq_left hk, ← List.countP_eq_length_filter] at hlen
    exact hlen.symm
  · intro hk
    rw [← hk, hcount, ← filter_le_eq_take h]
    exact hperm.filter _

/-- Sorted entries with different keys are in strict order. -/
lemma pairwise_lt {l : List α} (h : l.Pairwise fun a b => key a ≤ key b)
    (hnodup : (l.map key).Nodup) : l.Pairwise fun a b => key a < key b :=
  (h.and (List.pairwise_map.mp hnodup)).imp fun hab => lt_of_le_of_ne hab.1 hab.2

/-- There is one strict order of some entries only. -/
lemma eq_of_perm {l l' : List α} (hperm : l.Perm l') (h : l.Pairwise fun a b => key a < key b)
    (h' : l'.Pairwise fun a b => key a < key b) : l = l' :=
  List.Perm.eq_of_pairwise (fun _ _ _ _ hab hba => absurd hba (lt_asymm hab)) h h' hperm

end SortedLists

/-- What is found in a list of pairs is in it. -/
lemma List.mem_of_lookup_eq_some {α β : Type*} [BEq α] [LawfulBEq α] {l : List (α × β)} {k : α}
    {v : β} (h : l.lookup k = some v) : (k, v) ∈ l := by
  obtain ⟨before, after, rfl, -⟩ := List.lookup_eq_some_iff.mp h
  simp

/-- Among pairs with different keys, what is found is what is in the list. -/
lemma List.lookup_eq_some_iff_mem {α β : Type*} [BEq α] [LawfulBEq α] {l : List (α × β)}
    (hnodup : (l.map Prod.fst).Nodup) {k : α} {v : β} : l.lookup k = some v ↔ (k, v) ∈ l := by
  refine ⟨List.mem_of_lookup_eq_some, fun hmem => ?_⟩
  obtain ⟨before, after, rfl⟩ := List.append_of_mem hmem
  refine List.lookup_eq_some_iff.mpr ⟨before, after, rfl, fun entry hentry => ?_⟩
  rw [List.map_append, List.nodup_append] at hnodup
  have hne := hnodup.2.2 entry.1 (List.mem_map_of_mem hentry) k (by simp)
  simpa [bne_iff_ne] using hne.symm

/-- The values of the keys are changed one by one. -/
lemma List.lookup_map_snd {α β γ : Type*} [BEq α] [LawfulBEq α] (f : α → β → γ)
    (l : List (α × β)) (k : α) :
    (l.map fun entry => (entry.1, f entry.1 entry.2)).lookup k = (l.lookup k).map (f k) := by
  induction l with
  | nil => rfl
  | cons entry l ih =>
      obtain ⟨k', v⟩ := entry
      rw [List.map_cons, List.lookup_cons, List.lookup_cons, ih]
      cases hk : k == k' with
      | true => simp [eq_of_beq hk]
      | false => rfl

/-- In a list of at most one entry, nothing stands after an entry. -/
lemma List.eq_nil_of_eq_append_cons {α : Type*} {l before after : List α} {a : α}
    (h : l.length ≤ 1) (hl : l = before ++ a :: after) : after = [] := by
  have hlength := congrArg List.length hl
  rw [List.length_append, List.length_cons] at hlength
  exact List.eq_nil_of_length_eq_zero (by omega)

/-- A part of a list without repetitions consists of the entries that are in it. -/
lemma List.Sublist.filter_mem_eq {α : Type*} [DecidableEq α] {l l' : List α} (h : l'.Sublist l)
    (hnodup : l.Nodup) : l.filter (· ∈ l') = l' := by
  induction h with
  | slnil => rfl
  | @cons l' l a h ih =>
      obtain ⟨ha, hl⟩ := List.nodup_cons.mp hnodup
      rw [List.filter_cons_of_neg (by simpa using fun hmem => ha (h.subset hmem)), ih hl]
  | @cons_cons l' l a h ih =>
      obtain ⟨ha, hl⟩ := List.nodup_cons.mp hnodup
      have hcongr : l.filter (· ∈ a :: l') = l.filter (· ∈ l') := by
        refine List.filter_congr fun b hb => ?_
        have hne : b ≠ a := fun hba => ha (hba ▸ hb)
        simp [hne]
      rw [List.filter_cons_of_pos (by simp), hcongr, ih hl]

namespace AlignedLists

variable {α : Type*} [DecidableEq α]

/-- The entries of the first list that the second one does not have at the same
position. -/
def unmatched : List α → List α → List α
  | [], _ => []
  | a :: as, [] => a :: as
  | a :: as, b :: bs => if a = b then unmatched as bs else a :: unmatched as bs

@[simp] lemma unmatched_nil (as : List α) : unmatched as [] = as := by
  cases as <;> rfl

lemma unmatched_cons_self (a : α) (as bs : List α) :
    unmatched (a :: as) (a :: bs) = unmatched as bs := if_pos rfl

lemma unmatched_cons_of_ne {a b : α} (h : a ≠ b) (as bs : List α) :
    unmatched (a :: as) (b :: bs) = a :: unmatched as bs := if_neg h

lemma unmatched_sublist (as bs : List α) : (unmatched as bs).Sublist as := by
  induction as generalizing bs with
  | nil => exact .slnil
  | cons a as ih =>
      rcases bs with _ | ⟨b, bs⟩
      · exact .refl _
      · rcases eq_or_ne a b with rfl | hne
        · rw [unmatched_cons_self]
          exact (ih bs).cons _
        · rw [unmatched_cons_of_ne hne]
          exact (ih bs).cons_cons _

lemma mem_unmatched_iff {as bs : List α} {c : α} :
    c ∈ unmatched as bs ↔ ∃ k : ℕ, as[k]? = some c ∧ bs[k]? ≠ some c := by
  induction as generalizing bs with
  | nil => simp [unmatched]
  | cons a as ih =>
      rcases bs with _ | ⟨b, bs⟩
      · simp [List.mem_iff_getElem?]
      · rw [← Nat.or_exists_add_one]
        simp only [List.getElem?_cons_zero, List.getElem?_cons_succ, ← ih]
        rcases eq_or_ne a b with rfl | hne
        · rw [unmatched_cons_self]
          simp
        · rw [unmatched_cons_of_ne hne, List.mem_cons]
          constructor
          · rintro (rfl | h)
            · exact .inl ⟨rfl, by simpa using hne.symm⟩
            · exact .inr h
          · rintro (⟨h, -⟩ | h)
            · exact .inl (Option.some.inj h).symm
            · exact .inr h

/-- A list of which the other one has the beginning. -/
lemma unmatched_append_left (as bs : List α) : unmatched (as ++ bs) as = bs := by
  induction as with
  | nil => exact unmatched_nil bs
  | cons a as ih => rw [List.cons_append, unmatched_cons_self, ih]

end AlignedLists

namespace AppendedLists

variable {α : Type*} [DecidableEq α]

/-- An entry is appended, unless it is there. -/
def appendNew (l : List α) (a : α) : List α :=
  if a ∈ l then l else l ++ [a]

lemma mem_appendNew {l : List α} {a b : α} : b ∈ appendNew l a ↔ b ∈ l ∨ b = a := by
  rw [appendNew]
  split_ifs with h
  · exact ⟨.inl, fun hb => hb.elim id fun hba => hba ▸ h⟩
  · simp

/-- What is found first is not changed by entries that are left out. -/
lemma find?_appendNew (p : α → Bool) (l : List α) (a : α) :
    (appendNew l a).find? p = (l ++ [a]).find? p := by
  rw [appendNew]
  split_ifs with h
  · cases hfind : l.find? p with
    | some b => rw [List.find?_append, hfind, Option.some_or]
    | none =>
        have hpa : ¬ p a := List.find?_eq_none.mp hfind a h
        rw [List.find?_append, hfind, Option.none_or, List.find?_cons_of_neg hpa, List.find?_nil]
  · rfl

lemma mem_foldl_appendNew {xs l : List α} {b : α} :
    b ∈ xs.foldl appendNew l ↔ b ∈ l ∨ b ∈ xs := by
  induction xs generalizing l with
  | nil => simp
  | cons a xs ih => rw [List.foldl_cons, ih, mem_appendNew, List.mem_cons, or_assoc]

lemma find?_foldl_appendNew (p : α → Bool) (xs l : List α) :
    (xs.foldl appendNew l).find? p = (l ++ xs).find? p := by
  induction xs generalizing l with
  | nil => rw [List.foldl_nil, List.append_nil]
  | cons a xs ih =>
      calc ((a :: xs).foldl appendNew l).find? p
          = (appendNew l a ++ xs).find? p := by rw [List.foldl_cons, ih]
        _ = (l ++ [a] ++ xs).find? p := by
            rw [List.find?_append, find?_appendNew, ← List.find?_append]
        _ = (l ++ a :: xs).find? p := by rw [List.append_assoc, List.singleton_append]

end AppendedLists

namespace LastEntries

variable {α : Type*} {p : α → Prop}

/-- The last entry with a property, if there is one. -/
lemma exists_last {l : List α} (h : ∃ a ∈ l, p a) :
    ∃ l₁ a l₂, l = l₁ ++ a :: l₂ ∧ p a ∧ ∀ b ∈ l₂, ¬ p b := by
  induction l with
  | nil => simp at h
  | cons a l ih =>
      by_cases hl : ∃ b ∈ l, p b
      · obtain ⟨l₁, b, l₂, rfl, hb, hlast⟩ := ih hl
        exact ⟨a :: l₁, b, l₂, rfl, hb, hlast⟩
      · push Not at hl
        obtain ⟨b, hb, hpb⟩ := h
        rcases List.mem_cons.mp hb with rfl | hb
        · exact ⟨[], b, l, rfl, hpb, hl⟩
        · exact absurd hpb (hl b hb)

/-- There is only one last entry with a property. -/
lemma last_unique {l₁ l₂ l₁' l₂' : List α} {a a' : α} (h : l₁ ++ a :: l₂ = l₁' ++ a' :: l₂')
    (ha : p a) (ha' : p a') (hl₂ : ∀ b ∈ l₂, ¬ p b) (hl₂' : ∀ b ∈ l₂', ¬ p b) :
    a = a' ∧ l₂ = l₂' := by
  rcases List.append_eq_append_iff.mp h with ⟨m, -, hm⟩ | ⟨m, -, hm⟩
  · cases m with
    | nil => exact List.cons.inj hm
    | cons b m =>
        obtain ⟨-, rfl⟩ := List.cons.inj hm
        exact absurd ha' (hl₂ a' (by simp))
  · cases m with
    | nil =>
        obtain ⟨h, h'⟩ := List.cons.inj hm
        exact ⟨h.symm, h'.symm⟩
    | cons b m =>
        obtain ⟨-, rfl⟩ := List.cons.inj hm
        exact absurd ha (hl₂' a (by simp))

end LastEntries

namespace GroupedLists

variable {α β : Type*} {key : α → β}

/-- Entries with the same key stand together. -/
def Grouped (key : α → β) (l : List α) : Prop :=
  ∀ a b c, [a, b, c].Sublist l → key a = key c → key b = key a

/-- When the entries at a cut have different keys, the parts in front of it and behind it have no
key in common. -/
lemma Grouped.keys_ne {l₁ l₂ : List α} (h : Grouped key (l₁ ++ l₂))
    (hcut : ∀ a ∈ l₁.getLast?, ∀ b ∈ l₂.head?, key b ≠ key a) {a b : α} (ha : a ∈ l₁)
    (hb : b ∈ l₂) : key a ≠ key b := by
  intro hab
  obtain ⟨front, last, rfl⟩ := (List.eq_nil_or_concat' l₁).resolve_left (List.ne_nil_of_mem ha)
  obtain ⟨first, rest, rfl⟩ := List.exists_cons_of_ne_nil (List.ne_nil_of_mem hb)
  have hlast : key last = key a := by
    rcases List.mem_append.mp ha with hfront | hsame
    · refine h a last b ?_ hab
      have hsub : [a, last].Sublist (front ++ [last]) :=
        (List.singleton_sublist.mpr hfront).append (.refl [last])
      exact hsub.append (List.singleton_sublist.mpr hb)
    · rw [List.mem_singleton.mp hsame]
  have hfirst : key first = key last := by
    rcases List.mem_cons.mp hb with rfl | hrest
    · rw [hlast, hab]
    · refine h last first b ?_ (hlast.trans hab)
      have hsub : [first, b].Sublist (first :: rest) :=
        (List.singleton_sublist.mpr hrest).cons_cons first
      have hmem : last ∈ front ++ [last] := List.mem_append_right front List.mem_cons_self
      exact (List.singleton_sublist.mpr hmem).append hsub
  exact hcut last (by simp) first (by simp) hfirst

end GroupedLists
