/-
Operations that take effect at one of their steps.

A system takes steps for several operations at a time.  A step is labelled with what is done and
with the event that it makes visible, if any; an event belongs to an operation.

* `events`: what a run makes visible, in order;
* `Run.keeping`: the steps of a run are taken from states with what every step keeps;
* `Run.simulates`: a run of a system whose steps do what a specification does at their events is,
  as far as the events go, a run of the specification;
* `Run.refines`: the same where the specification takes any number of steps, with what is seen of
  the steps;
* `Commits`: a step with an event is the one at which the operation of the event takes effect;
  (`Commits.of_none`, `Commits.of_some` where the state has a phase for each operation);
* `Run.commits`: then each operation has at most one event in a run, and it is the one that the
  state at the end remembers.
-/
import FtThesis.Library.Runs

namespace Transition

variable {σ τ α β ι : Type*}

/-- The events of the steps, in order. -/
def events (as : List (α × Option β)) : List β := as.filterMap Prod.snd

@[simp] lemma events_nil : events ([] : List (α × Option β)) = [] := rfl

lemma events_snoc (as : List (α × Option β)) (a : α) (e : Option β) :
    events (as ++ [(a, e)]) = events as ++ e.toList := by
  cases e <;> simp [events]

/-- Each step of a run is taken from a state with what every step keeps. -/
lemma Run.keeping {step : σ → α → σ → Prop} {I : σ → Prop}
    (hstep : ∀ s a t, I s → step s a t → I t) {s t : σ} {as : List α} (hs : I s)
    (h : Run step s as t) : Run (When (fun s _ => I s) step) s as t := by
  induction h with
  | nil => exact .nil
  | snoc h' hlast ih => exact ih.snoc ⟨h'.invariant hstep hs, hlast⟩

/-! ### Simulation -/

/-- **Simulation.**  If every step, from related states, leads to a state that the specification
reaches with the event of the step, then so does every run with its events. -/
theorem Run.simulates {step : σ → α × Option β → σ → Prop} {spec : τ → β → τ → Prop}
    {R : σ → τ → Prop}
    (hstep : ∀ s a e t u, R s u → step s (a, e) t → ∃ v, Run spec u e.toList v ∧ R t v)
    {s t : σ} {u : τ} {as : List (α × Option β)} (hs : R s u) (h : Run step s as t) :
    ∃ v, Run spec u (events as) v ∧ R t v := by
  induction h with
  | nil => exact ⟨u, .nil, hs⟩
  | @snoc as t t' a _ hlast ih =>
      obtain ⟨v, hrun, hrel⟩ := ih
      obtain ⟨v', hrun', hrel'⟩ := hstep t a.1 a.2 t' v hrel hlast
      exact ⟨v', by rw [events_snoc]; exact hrun.append hrun', hrel'⟩

/-- **Refinement.**  If from related states the specification can follow every step, and what is
seen of its own steps is what is seen of the step, then it can follow every run in this way. -/
theorem Run.refines {ω γ : Type*} {step : σ → α → σ → Prop} {spec : τ → ω → τ → Prop}
    {R : σ → τ → Prop} {seen : α → List γ} {seen' : ω → List γ}
    (hstep : ∀ s a t u, R s u → step s a t →
      ∃ bs v, Run spec u bs v ∧ bs.flatMap seen' = seen a ∧ R t v)
    {s t : σ} {u : τ} {as : List α} (hs : R s u) (h : Run step s as t) :
    ∃ bs v, Run spec u bs v ∧ bs.flatMap seen' = as.flatMap seen ∧ R t v := by
  induction h with
  | nil => exact ⟨[], u, .nil, rfl, hs⟩
  | @snoc as t t' a _ hlast ih =>
      obtain ⟨bs, v, hrun, hseen, hrel⟩ := ih
      obtain ⟨bs', v', hrun', hseen', hrel'⟩ := hstep t a t' v hrel hlast
      refine ⟨bs ++ bs', v', hrun.append hrun', ?_, hrel'⟩
      rw [List.flatMap_append, List.flatMap_append, hseen, hseen', List.flatMap_singleton]

/-! ### Events and their operations -/

variable [DecidableEq ι]

/-- With the event of a step its operation takes effect, and did not before; `committed` is what
the states remember of it. -/
def Commits (committed : σ → ι → Option β) (s : σ) : Option (ι × β) → σ → Prop
  | none, t => committed t = committed s
  | some (i, b), t => committed s i = none ∧ committed t = Function.update (committed s) i (some b)

section

variable {φ : Type*} (phase : σ → ι → φ) (f : φ → Option β) {s t : σ} {i : ι} {p : φ}

/-- An operation comes to a phase, in which it has taken effect if it had before. -/
lemma Commits.of_none (ht : phase t = Function.update (phase s) i p) (h : f p = f (phase s i)) :
    Commits (fun s i => f (phase s i)) s none t := by
  change (fun i' => f (phase t i')) = fun i' => f (phase s i')
  rw [ht]
  funext i'
  rcases eq_or_ne i' i with rfl | hne
  · rw [Function.update_self, h]
  · rw [Function.update_of_ne hne]

/-- An operation comes to a phase in which it has taken effect. -/
lemma Commits.of_some {b : β} (ht : phase t = Function.update (phase s) i p)
    (hold : f (phase s i) = none) (hnew : f p = some b) :
    Commits (fun s i => f (phase s i)) s (some (i, b)) t := by
  refine ⟨hold, ?_⟩
  change (fun i' => f (phase t i')) = Function.update (fun i' => f (phase s i')) i (some b)
  rw [ht]
  funext i'
  rcases eq_or_ne i' i with rfl | hne
  · rw [Function.update_self, Function.update_self, hnew]
  · rw [Function.update_of_ne hne, Function.update_of_ne hne]

end

/-- **One event for each operation.**  If the steps commit, from a state in which no operation has
taken effect, then the events of a run are those of different operations, and they are exactly
what its last state remembers. -/
theorem Run.commits {step : σ → α × Option (ι × β) → σ → Prop} {committed : σ → ι → Option β}
    (hstep : ∀ s a e t, step s (a, e) t → Commits committed s e t) {s t : σ}
    {as : List (α × Option (ι × β))} (hs : ∀ i, committed s i = none) (h : Run step s as t) :
    ((events as).map Prod.fst).Nodup ∧ ∀ i b, (i, b) ∈ events as ↔ committed t i = some b := by
  induction h with
  | nil => simp [hs]
  | @snoc as t t' a _ hlast ih =>
      obtain ⟨a, e⟩ := a
      obtain ⟨hnodup, hmem⟩ := ih
      have hcommits := hstep t a e t' hlast
      rw [events_snoc]
      cases e with
      | none =>
          have hsame : committed t' = committed t := hcommits
          simpa [hsame] using ⟨hnodup, hmem⟩
      | some e =>
          obtain ⟨i, b⟩ := e
          obtain ⟨hnew, hupdate⟩ : committed t i = none ∧
            committed t' = Function.update (committed t) i (some b) := hcommits
          have hfresh : ∀ b', (i, b') ∉ events as := fun b' h' => by
            rw [hmem, hnew] at h'
            cases h'
          refine ⟨?_, fun i' b' => ?_⟩
          · rw [List.map_append, List.nodup_append]
            refine ⟨hnodup, by simp, fun j hj k hk => ?_⟩
            obtain ⟨⟨j', b'⟩, hj', rfl⟩ := List.mem_map.mp hj
            obtain rfl : k = i := by simpa using hk
            rintro rfl
            exact hfresh b' hj'
          · rw [List.mem_append, hupdate]
            rcases eq_or_ne i' i with rfl | hne
            · simp [hfresh, eq_comm]
            · simp [hne, hmem]

end Transition
