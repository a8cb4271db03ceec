/-
Programs that make requests to a world they share with others.

A program is a tree: it ends, or it makes a request and goes on with the answer.

* `Program Q A α`: programs with requests `Q`, answers `A` and results `α`, a monad;
* `Program.run`: a run by itself, in which nothing happens between the requests;
* `Program.requests`: the requests that a program makes when it gets certain answers, with
  `run_of_requests`;
* `Program.Keeps`: a run among others.  Before each request the world may change along
  the relation `rely`; what the program promises is that `assert` holds of each request
  when it is made, and `post` at the end;
* `Keeps.of_rely`, `Keeps.mono`, `Keeps.bind`: the rules for it.
-/
import Mathlib.Tactic

namespace Requests

universe u v w x

/-- A program that makes requests `q : Q` with answers in `A q`, and returns an `α`; it
may also do what is undefined. -/
inductive Program (Q : Type u) (A : Q → Type v) (α : Type w)
  | pure (a : α)
  | undefined
  | request (q : Q) (k : A q → Program Q A α)

namespace Program

variable {Q : Type u} {A : Q → Type v} {α β : Type w} {σ : Type x}

/-- One program after another. -/
def bind : Program Q A α → (α → Program Q A β) → Program Q A β
  | .pure a, f => f a
  | .undefined, _ => .undefined
  | .request q k, f => .request q fun a => (k a).bind f

instance : Monad (Program Q A) where
  pure := Program.pure
  bind := Program.bind

/-- The program that makes one request and returns its answer. -/
def ask {Q : Type u} {A : Q → Type w} (q : Q) : Program Q A (A q) := .request q .pure

/-- The value of what may be undefined. -/
def ofOption : Option α → Program Q A α
  | none => .undefined
  | some a => .pure a

lemma bind_request (q : Q) (k : A q → Program Q A α) (f : α → Program Q A β) :
    .request q k >>= f = .request q fun a => k a >>= f := rfl

/-! ### A run by itself -/

section

variable (perform : (q : Q) → σ → Option (A q × σ))

/-- The result of a program and the state after it, if all requests are performed and
nothing undefined is done. -/
def run : Program Q A α → σ → Option (α × σ)
  | .pure a, s => some (a, s)
  | .undefined, _ => none
  | .request q k, s => (perform q s).bind fun r => (k r.1).run r.2

@[simp] lemma run_pure (a : α) (s : σ) :
    (Pure.pure a : Program Q A α).run perform s = some (a, s) := rfl

@[simp] lemma run_bind (p : Program Q A α) (f : α → Program Q A β) (s : σ) :
    (p >>= f).run perform s = (p.run perform s).bind fun r => (f r.1).run perform r.2 := by
  induction p generalizing s with
  | pure a => rfl
  | undefined => rfl
  | request q k ih =>
      rw [bind_request, run, run, Option.bind_assoc]
      exact Option.bind_congr fun r _ => ih r.1 r.2

/-- A program goes on with the result of its first part, from the state after it. -/
lemma run_bind_of_run {p : Program Q A α} {f : α → Program Q A β} {s t : σ} {a : α}
    (h : p.run perform s = some (a, t)) : (p >>= f).run perform s = (f a).run perform t := by
  rw [run_bind, h, Option.bind_some]

/-- A run has one result. -/
lemma exists_run_iff {p : Program Q A α} {s t : σ} {a : α} (h : p.run perform s = some (a, t))
    {post : σ → Prop} : (∃ b u, p.run perform s = some (b, u) ∧ post u) ↔ post t := by
  constructor
  · rintro ⟨b, u, hrun, hpost⟩
    obtain ⟨-, rfl⟩ := Prod.mk.inj (Option.some.inj (h.symm.trans hrun))
    exact hpost
  · exact fun hpost => ⟨a, t, h, hpost⟩

@[simp] lemma run_ask {A : Q → Type w} (perform : (q : Q) → σ → Option (A q × σ)) (q : Q) (s : σ) :
    (ask q).run perform s = perform q s := by
  rw [ask, run]
  cases perform q s <;> rfl

@[simp] lemma run_ofOption (o : Option α) (s : σ) :
    (ofOption o : Program Q A α).run perform s = o.map (·, s) := by
  cases o <;> rfl

end

/-! ### The requests of a program -/

section

variable (answer : (q : Q) → A q)

/-- The requests that a program makes, one after another, when each one gets the answer that
`answer` has for it, and the result, if nothing undefined is done. -/
def requests : Program Q A α → List Q × Option α
  | .pure a => ([], some a)
  | .undefined => ([], none)
  | .request q k => (q :: ((k (answer q)).requests).1, ((k (answer q)).requests).2)

@[simp] lemma requests_pure (a : α) :
    (Pure.pure a : Program Q A α).requests answer = ([], some a) := rfl

/-- A program goes on with the result of its first part. -/
lemma requests_bind {p : Program Q A α} {qs : List Q} {a : α} (f : α → Program Q A β)
    (h : p.requests answer = (qs, some a)) :
    (p >>= f).requests answer =
      (qs ++ ((f a).requests answer).1, ((f a).requests answer).2) := by
  induction p generalizing qs with
  | pure b =>
      cases h
      rfl
  | undefined => cases h
  | request q k ih =>
      obtain ⟨hqs, hresult⟩ := Prod.mk.inj h
      subst hqs
      rw [bind_request, requests, ih (answer q) (Prod.ext rfl hresult), List.cons_append]

/-- The requests are performed one after another, with these answers. -/
def Answered (perform : (q : Q) → σ → Option (A q × σ)) : List Q → σ → σ → Prop
  | [], s, t => s = t
  | q :: qs, s, t => ∃ u, perform q s = some (answer q, u) ∧ Answered perform qs u t

/-- Requests that are performed, and others that are performed after them. -/
lemma Answered.append {answer : (q : Q) → A q} {perform : (q : Q) → σ → Option (A q × σ)}
    {qs qs' : List Q} {s t u : σ} (h : Answered answer perform qs s t)
    (h' : Answered answer perform qs' t u) : Answered answer perform (qs ++ qs') s u := by
  induction qs generalizing s with
  | nil =>
      obtain rfl : s = t := h
      exact h'
  | cons q qs ih =>
      obtain ⟨v, hperform, hrest⟩ := h
      exact ⟨v, hperform, ih hrest⟩

/-- A program whose requests are performed with these answers comes to its result. -/
lemma run_of_requests {answer : (q : Q) → A q} {perform : (q : Q) → σ → Option (A q × σ)}
    {p : Program Q A α} {qs : List Q} {a : α} {s t : σ} (h : p.requests answer = (qs, some a))
    (hanswered : Answered answer perform qs s t) : p.run perform s = some (a, t) := by
  induction p generalizing qs s with
  | pure b =>
      cases h
      obtain rfl : s = t := hanswered
      rfl
  | undefined => cases h
  | request q k ih =>
      obtain ⟨hqs, hresult⟩ := Prod.mk.inj h
      subst hqs
      obtain ⟨u, hperform, hrest⟩ := hanswered
      rw [run, hperform, Option.bind_some]
      exact ih (answer q) (Prod.ext rfl hresult) hrest

end

/-! ### A run among others -/

/-- A relation along which the world changes, any number of times: it is transitive, and
where it leads the world may also stay. -/
structure IsRely (rely : σ → σ → Prop) : Prop where
  trans : ∀ {s t u}, rely s t → rely t u → rely s u
  refl_of : ∀ {s t}, rely s t → rely t t

section

variable (rely : σ → σ → Prop) (perform : (q : Q) → σ → A q → σ → Prop) (assert : Q → σ → Prop)

/-- From the world `s`, in which it waits: while the world changes along `rely` before
each request and before the end, `assert` holds of each request and of the world in
which it is performed, and `post` of the result and the world at the end. -/
def Keeps (post : α → σ → Prop) : Program Q A α → σ → Prop
  | .pure a, s => ∀ t, rely s t → post a t
  | .undefined, _ => True
  | .request q k, s =>
      ∀ t, rely s t → assert q t ∧ ∀ a u, perform q t a u → Keeps post (k a) u

variable {rely perform assert} {post post' : α → σ → Prop} {s t : σ}

lemma Keeps.pure {a : α} (h : ∀ t, rely s t → post a t) :
    (Pure.pure a : Program Q A α).Keeps rely perform assert post s := h

/-- A request, and what comes after it. -/
lemma Keeps.ask_bind {A : Q → Type w} {perform : (q : Q) → σ → A q → σ → Prop}
    {post : α → σ → Prop} {q : Q} {f : A q → Program Q A α}
    (h : ∀ t, rely s t → assert q t ∧
      ∀ a u, perform q t a u → (f a).Keeps rely perform assert post u) :
    (ask q >>= f).Keeps rely perform assert post s := h

lemma Keeps.ofOption_bind {o : Option α} {f : α → Program Q A β} {post : β → σ → Prop}
    (h : ∀ a ∈ o, (f a).Keeps rely perform assert post s) :
    ((ofOption o : Program Q A α) >>= f).Keeps rely perform assert post s := by
  cases o with
  | none => trivial
  | some a => exact h a rfl

lemma Keeps.mono {p : Program Q A α} (h : p.Keeps rely perform assert post s)
    (hpost : ∀ a t, post a t → post' a t) : p.Keeps rely perform assert post' s := by
  induction p generalizing s with
  | pure a => exact fun t ht => hpost a t (h t ht)
  | undefined => trivial
  | request q k ih =>
      intro t ht
      exact ⟨(h t ht).1, fun a u hu => ih a ((h t ht).2 a u hu)⟩

lemma Keeps.map {p : Program Q A α} {f : α → β} {post : β → σ → Prop}
    (h : p.Keeps rely perform assert (fun a => post (f a)) s) :
    (f <$> p).Keeps rely perform assert post s := by
  induction p generalizing s with
  | pure a => exact h
  | undefined => trivial
  | request q k ih =>
      intro t ht
      exact ⟨(h t ht).1, fun a u hu => ih a ((h t ht).2 a u hu)⟩

variable (hrely : IsRely rely)

include hrely

/-- What is kept is kept when the world changes before. -/
lemma Keeps.of_rely {p : Program Q A α} (h : p.Keeps rely perform assert post s)
    (hst : rely s t) : p.Keeps rely perform assert post t := by
  cases p with
  | pure a => exact fun u hu => h u (hrely.trans hst hu)
  | undefined => trivial
  | request q k => exact fun u hu => h u (hrely.trans hst hu)

/-- It is enough that a program keeps what it has to after a change. -/
lemma Keeps.of_forall_rely {p : Program Q A α}
    (h : ∀ t, rely s t → p.Keeps rely perform assert post t) :
    p.Keeps rely perform assert post s := by
  cases p with
  | pure a => exact fun t ht => h t ht t (hrely.refl_of ht)
  | undefined => trivial
  | request q k => exact fun t ht => h t ht t (hrely.refl_of ht)

/-- One program after another. -/
lemma Keeps.bind {p : Program Q A α} {f : α → Program Q A β} {post : β → σ → Prop}
    (h : p.Keeps rely perform assert (fun a => (f a).Keeps rely perform assert post) s) :
    (p >>= f).Keeps rely perform assert post s := by
  induction p generalizing s with
  | pure a => exact .of_forall_rely hrely h
  | undefined => trivial
  | request q k ih =>
      intro t ht
      exact ⟨(h t ht).1, fun a u hu => ih a ((h t ht).2 a u hu)⟩

end

end Program

end Requests
