/-
Finite runs of a labelled transition relation, and the two ways a run is
restricted: by a condition on each step it takes (`When`) and by a property of
each state it enters (`Into`).

* `Run step s as t`: the labels `as`, taken in order, lead from `s` to `t`;
* `Run.invariant`: what every step preserves holds at the end of every run;
* `Run.mono`: a run of a smaller relation is a run of a larger one;
* `Run.into_iff_when`: if, from a state with the property, a step keeps the
  property exactly when it meets the condition, then a run keeps the property
  throughout exactly when each of its steps meets the condition;
* `Run.iff_when`: the same for a property that no step can restore;
* `Run.with_iff_when`: the same for a property of each step (`With`), and `Run.with_of_when` for a
  condition that is only sufficient;
* `Run.of_foldlM`, `Run.when_of_foldlM`: runs of a transition function, computed;
* `While test body s t`: a loop that ends, and in which nothing undefined is done.
-/
import Mathlib.Tactic

namespace Transition

variable {σ α : Type*}

/-- A finite run of the relation `step` from the state `s`, growing at its end. -/
inductive Run (step : σ → α → σ → Prop) (s : σ) : List α → σ → Prop
  | nil : Run step s [] s
  | snoc {as : List α} {t u : σ} {a : α} (h : Run step s as t) (h' : step t a u) :
      Run step s (as ++ [a]) u

/-- The steps of `step` that are taken from a state that meets the condition `C`. -/
def When (C : σ → α → Prop) (step : σ → α → σ → Prop) : σ → α → σ → Prop :=
  fun s a t => C s a ∧ step s a t

/-- The steps of `step` that enter a state with the property `P`. -/
def Into (P : σ → Prop) (step : σ → α → σ → Prop) : σ → α → σ → Prop :=
  fun s a t => step s a t ∧ P t

/-- The steps of `step` with the property `Q`. -/
def With (Q : σ → α → σ → Prop) (step : σ → α → σ → Prop) : σ → α → σ → Prop :=
  fun s a t => step s a t ∧ Q s a t

/-- The relation of a partial transition function. -/
def Fires (step : σ → α → Option σ) : σ → α → σ → Prop :=
  fun s a t => step s a = some t

/-- A partial transition function, on the steps that meet the condition `C`. -/
def guarded (C : σ → α → Prop) [∀ s a, Decidable (C s a)] (f : σ → α → Option σ) :
    σ → α → Option σ :=
  fun s a => if C s a then f s a else none

variable {step step' : σ → α → σ → Prop} {s t u : σ} {as : List α}

namespace Run

lemma single {a : α} (h : step s a t) : Run step s [a] t := by
  rw [← List.nil_append [a]]
  exact .snoc .nil h

/-- Runs concatenate. -/
lemma append {bs : List α} (h : Run step s as t) (h' : Run step t bs u) :
    Run step s (as ++ bs) u := by
  induction h' with
  | nil => simpa using h
  | snoc _ hstep ih =>
      rw [← List.append_assoc]
      exact ih.snoc hstep

lemma cons {a : α} (h : step s a t) (h' : Run step t as u) : Run step s (a :: as) u :=
  (single h).append h'

/-- The last step of a run. -/
lemma snoc_inv {a : α} (h : Run step s (as ++ [a]) u) : ∃ t, Run step s as t ∧ step t a u := by
  generalize hbs : as ++ [a] = bs at h
  cases h with
  | nil => simp at hbs
  | snoc h' hst =>
      obtain ⟨rfl, hlast⟩ := List.append_inj' hbs rfl
      obtain rfl := List.singleton_inj.mp hlast
      exact ⟨_, h', hst⟩

lemma nil_inv (h : Run step s [] t) : s = t := by
  generalize hbs : ([] : List α) = bs at h
  cases h with
  | nil => rfl
  | snoc _ _ => simp at hbs

/-- The first step of a run. -/
lemma cons_inv {a : α} (h : Run step s (a :: as) u) : ∃ t, step s a t ∧ Run step t as u := by
  induction as using List.reverseRecOn generalizing u with
  | nil =>
      obtain ⟨t, hnil, hst⟩ := snoc_inv (List.nil_append [a] ▸ h)
      obtain rfl := hnil.nil_inv
      exact ⟨u, hst, .nil⟩
  | append_singleton as b ih =>
      rw [← List.cons_append] at h
      obtain ⟨t, hrun, hlast⟩ := h.snoc_inv
      obtain ⟨m, hfirst, hrun⟩ := ih hrun
      exact ⟨m, hfirst, hrun.snoc hlast⟩

/-- What holds at the start and is preserved by every step holds at the end. -/
lemma invariant {I : σ → Prop} (hstep : ∀ s a t, I s → step s a t → I t)
    (h : Run step s as t) (hs : I s) : I t := by
  induction h with
  | nil => exact hs
  | snoc _ h' ih => exact hstep _ _ _ ih h'

lemma mono (hle : ∀ s a t, step s a t → step' s a t) (h : Run step s as t) :
    Run step' s as t := by
  induction h with
  | nil => exact .nil
  | snoc _ h' ih => exact ih.snoc (hle _ _ _ h')

lemma of_when {C : σ → α → Prop} (h : Run (When C step) s as t) : Run step s as t :=
  h.mono fun _ _ _ hst => hst.2

/-- Every state a run restricted by `Into` ends in has the property. -/
lemma into_last {P : σ → Prop} (h : Run (Into P step) s as t) (hs : P s) : P t :=
  h.invariant (fun _ _ _ _ hst => hst.2) hs

/-- The property holds throughout a run exactly when each step meets the
condition, provided that this is so of one step from a state with the property
(and with the invariant `I` of the relation). -/
theorem into_iff_when {I P : σ → Prop} {C : σ → α → Prop}
    (hI : ∀ s a t, I s → step s a t → I t)
    (hstep : ∀ s a t, I s → P s → step s a t → (P t ↔ C s a)) (hIs : I s) (hPs : P s) :
    Run (Into P step) s as t ↔ Run (When C step) s as t := by
  constructor
  · intro h
    induction h with
    | nil => exact .nil
    | snoc h' hst ih =>
        have hPt := h'.into_last hPs
        have hIt := h'.invariant (I := I) (fun s a t hs hst => hI s a t hs hst.1) hIs
        exact ih.snoc ⟨(hstep _ _ _ hIt hPt hst.1).mp hst.2, hst.1⟩
  · intro h
    induction h with
    | nil => exact .nil
    | snoc h' hst ih =>
        have hPt := ih.into_last hPs
        have hIt := h'.of_when.invariant hI hIs
        exact ih.snoc ⟨hst.2, (hstep _ _ _ hIt hPt hst.2).mpr hst.1⟩

/-- If no step restores the property, a run that ends with it had it throughout. -/
lemma into_of_last {P : σ → Prop} (hmono : ∀ s a t, step s a t → P t → P s)
    (h : Run step s as t) (ht : P t) : Run (Into P step) s as t := by
  induction h with
  | nil => exact .nil
  | snoc _ hst ih => exact (ih (hmono _ _ _ hst ht)).snoc ⟨hst, ht⟩

/-- For a property that no step restores: the run ends with the property exactly
when each of its steps meets the condition. -/
theorem iff_when {I P : σ → Prop} {C : σ → α → Prop}
    (hI : ∀ s a t, I s → step s a t → I t)
    (hmono : ∀ s a t, step s a t → P t → P s)
    (hstep : ∀ s a t, I s → P s → step s a t → (P t ↔ C s a)) (hIs : I s) (hPs : P s)
    (h : Run step s as t) : P t ↔ Run (When C step) s as t := by
  rw [← into_iff_when hI hstep hIs hPs]
  exact ⟨h.into_of_last hmono, fun h' => h'.into_last hPs⟩

/-- All steps of a run have the property exactly when each of them meets the condition,
provided that this is so of one step from a state with the invariant, and that the steps
that meet the condition keep the invariant. -/
theorem with_iff_when {I : σ → Prop} {C : σ → α → Prop} {Q : σ → α → σ → Prop}
    (hI : ∀ s a t, I s → C s a → step s a t → I t)
    (hstep : ∀ s a t, I s → step s a t → (Q s a t ↔ C s a)) (hIs : I s) :
    Run (With Q step) s as t ↔ Run (When C step) s as t := by
  have hinv : ∀ {as t}, Run (When C step) s as t → I t := fun h =>
    h.invariant (fun s a t hs hst => hI s a t hs hst.1 hst.2) hIs
  constructor
  · intro h
    induction h with
    | nil => exact .nil
    | snoc _ hst ih => exact ih.snoc ⟨(hstep _ _ _ (hinv ih) hst.1).mp hst.2, hst.1⟩
  · intro h
    induction h with
    | nil => exact .nil
    | snoc h' hst ih => exact ih.snoc ⟨hst.2, (hstep _ _ _ (hinv h') hst.2).mpr hst.1⟩

/-- All steps of a run that meets the condition have the property, provided that this is so of
one step from a state with the invariant. -/
theorem with_of_when {I : σ → Prop} {C : σ → α → Prop} {Q : σ → α → σ → Prop}
    (hI : ∀ s a t, I s → step s a t → I t)
    (hstep : ∀ s a t, I s → C s a → step s a t → Q s a t) (hIs : I s)
    (h : Run (When C step) s as t) : Run (With Q step) s as t := by
  induction h with
  | nil => exact .nil
  | snoc h' hst ih =>
      exact ih.snoc ⟨hst.2, hstep _ _ _ (h'.of_when.invariant hI hIs) hst.1 hst.2⟩

/-- A computed run of a transition function is a run of its relation. -/
lemma of_foldlM {f : σ → α → Option σ} :
    ∀ {as : List α} {s t : σ}, as.foldlM f s = some t → Run (Fires f) s as t
  | [], s, t, h => by
      obtain rfl : s = t := by simpa using h
      exact .nil
  | a :: as, s, t, h => by
      rw [List.foldlM_cons] at h
      obtain ⟨m, hm, h⟩ := Option.bind_eq_some_iff.mp h
      exact .cons hm (of_foldlM h)

/-- A run that is computed with a guard meets the condition at each step. -/
lemma when_of_foldlM {C : σ → α → Prop} [∀ s a, Decidable (C s a)] {f : σ → α → Option σ}
    (h : as.foldlM (guarded C f) s = some t) : Run (When C (Fires f)) s as t :=
  (of_foldlM h).mono fun s a t hst => by
    rw [Fires, guarded] at hst
    split_ifs at hst with hC
    exact ⟨hC, hst⟩

end Run

/-! ### Loops -/

/-- `while (test) body`, with a body that may be undefined, leads from the state `s` to the
state `t`. -/
inductive While (test : σ → Bool) (body : σ → Option σ) : σ → σ → Prop
  | done {s : σ} (h : test s = false) : While test body s s
  | round {s t u : σ} (h : test s = true) (h' : body s = some t) (h'' : While test body t u) :
      While test body s u

section

variable {test : σ → Bool} {body : σ → Option σ}

lemma while_iff_of_done (h : test s = false) : While test body s t ↔ t = s := by
  constructor
  · rintro (_ | ⟨htest, -, -⟩)
    · rfl
    · rw [h] at htest
      exact absurd htest (by simp)
  · rintro rfl
    exact .done h

lemma while_iff_of_round (h : test s = true) :
    While test body s t ↔ ∃ u, body s = some u ∧ While test body u t := by
  constructor
  · rintro (hdone | ⟨-, hbody, hwhile⟩)
    · rw [h] at hdone
      exact absurd hdone (by simp)
    · exact ⟨_, hbody, hwhile⟩
  · rintro ⟨u, hbody, hwhile⟩
    exact .round h hbody hwhile

end

end Transition
