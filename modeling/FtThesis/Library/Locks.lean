/-
Threads that acquire and release locks, and destroy them.

* `LockOp`, `Locking`: what a thread does to a lock, and the state of some threads: what each of
  them has still to do, who holds each lock, and which locks are destroyed;
* `Locking.step`: one operation of one thread; a thread waits for a lock that is held, and nothing
  is defined for a lock that is destroyed;
* `Locking.Strays`: a thread comes to an operation that is not defined;
* `locked`: a part of a program under a lock;
* `Ordered`: a program acquires locks in the order of their ranks, and gives all of them back;
* `Above`: a part of a program that does so whatever locks of lower rank are held;
* `Held`: the locks are held by the threads that have still to give them back; `held_step`;
* `exists_step`: threads with ordered programs do not block each other for ever;
* `Careful`: no thread has still to do anything to a lock that is destroyed before; `careful_step`;
* `exists_completion`: from a careful state the threads can end;
* `run_ordered`: so it is for every run, and they end after as many operations as their programs
  have.
-/
import FtThesis.Library.Runs

namespace Transition

variable {ι L : Type*}

/-- An operation on a lock. -/
inductive LockOp (L : Type*)
  | acquire (l : L)
  | release (l : L)
  | destroy (l : L)
deriving DecidableEq

/-- The lock of an operation. -/
def LockOp.lock : LockOp L → L
  | acquire l | release l | destroy l => l

/-- A part of a program, under a lock. -/
def locked (l : L) (body : List (LockOp L)) : List (LockOp L) :=
  .acquire l :: (body ++ [.release l])

/-- What each thread has still to do, who holds each lock, and which locks are destroyed. -/
structure Locking (ι L : Type*) where
  programs : ι → List (LockOp L)
  holder : L → Option ι
  destroyed : L → Bool

/-! ### Programs that keep an order -/

section

variable [DecidableEq L] (rank : L → ℕ)

/-- The program acquires locks of a higher rank than those that are held, gives back all that are
held at its start or acquired, and destroys none of them. -/
def Ordered : List L → List (LockOp L) → Prop
  | held, [] => held = []
  | held, .destroy l :: rest => l ∉ held ∧ Ordered held rest
  | held, .acquire l :: rest => (∀ l' ∈ held, rank l' < rank l) ∧ Ordered (l :: held) rest
  | held, .release l :: rest => l ∈ held ∧ Ordered (held.erase l) rest

/-- The part of a program may run whatever locks of rank less than `n` are held, and holds the same
locks at its end. -/
def Above (n : ℕ) (part : List (LockOp L)) : Prop :=
  ∀ held rest, (∀ l ∈ held, rank l < n) → Ordered rank held rest → Ordered rank held (part ++ rest)

variable {rank} {n : ℕ} {part part' : List (LockOp L)}

lemma above_nil : Above rank n [] := fun _ _ _ h => h

lemma Above.append (h : Above rank n part) (h' : Above rank n part') :
    Above rank n (part ++ part') := fun held rest hheld hrest => by
  rw [List.append_assoc]
  exact h held _ hheld (h' held rest hheld hrest)

lemma Above.mono {m : ℕ} (h : Above rank n part) (hle : m ≤ n) : Above rank m part :=
  fun held rest hheld => h held rest fun l hl => (hheld l hl).trans_le hle

/-- A part under a lock, in which only locks of higher rank are acquired. -/
lemma Above.locked {l : L} (h : Above rank (rank l + 1) part) (hle : n ≤ rank l) :
    Above rank n (locked l part) := fun held rest hheld hrest => by
  have hparts : Transition.locked l part ++ rest =
      .acquire l :: (part ++ .release l :: rest) := by simp [Transition.locked]
  rw [hparts]
  refine ⟨fun l' hl' => (hheld l' hl').trans_le hle, ?_⟩
  refine h (l :: held) _ (List.forall_mem_cons.mpr ⟨Nat.lt_succ_self _, fun l' hl' => ?_⟩) ?_
  · exact (hheld l' hl').trans_le (hle.trans (Nat.le_succ _))
  · exact ⟨List.mem_cons_self, by rwa [List.erase_cons_head]⟩

lemma above_locked_nil {l : L} (hle : n ≤ rank l) : Above rank n (Transition.locked l []) :=
  above_nil.locked hle

/-- The destruction of a lock of higher rank. -/
lemma above_destroy {l : L} (hle : n ≤ rank l) : Above rank n [.destroy l] :=
  fun _ _ hheld hrest => ⟨fun hl => absurd (hheld l hl) (not_lt.mpr hle), hrest⟩

lemma above_flatMap {α : Type*} {as : List α} {part : α → List (LockOp L)}
    (h : ∀ a ∈ as, Above rank n (part a)) : Above rank n (as.flatMap part) := by
  induction as with
  | nil => exact above_nil
  | cons a as ih =>
      obtain ⟨ha, has⟩ := List.forall_mem_cons.mp h
      rw [List.flatMap_cons]
      exact ha.append (ih has)

/-- A whole program starts and ends without locks. -/
lemma Above.ordered (h : Above rank n part) : Ordered rank [] part := by
  have hordered := h [] [] nofun rfl
  rwa [List.append_nil] at hordered

end

namespace Locking

/-! ### Steps -/

variable [DecidableEq ι] [DecidableEq L]

/-- One operation of a thread. -/
def step (s : Locking ι L) (i : ι) : Option (Locking ι L) :=
  match s.programs i with
  | [] => none
  | .acquire l :: rest =>
      if s.holder l = none ∧ s.destroyed l = false then
        some
          { s with
            programs := Function.update s.programs i rest
            holder := Function.update s.holder l (some i) }
      else none
  | .release l :: rest =>
      some
        { s with
          programs := Function.update s.programs i rest
          holder := Function.update s.holder l none }
  | .destroy l :: rest =>
      if s.holder l = none then
        some
          { s with
            programs := Function.update s.programs i rest
            destroyed := Function.update s.destroyed l true }
      else none

/-- The threads at their start. -/
def start (programs : ι → List (LockOp L)) : Locking ι L :=
  ⟨programs, fun _ => none, fun _ => false⟩

/-- The thread is about to acquire a lock that is destroyed, or to destroy one that is held. -/
def Strays (s : Locking ι L) (i : ι) : Prop :=
  ∃ l rest, s.programs i = .acquire l :: rest ∧ s.destroyed l = true ∨
    s.programs i = .destroy l :: rest ∧ s.holder l ≠ none

variable {s t : Locking ι L} {i : ι} {rank : L → ℕ} {as : List ι}

/-- The locks are held by the threads that have still to give them back, in the order of the
ranks. -/
def Held (rank : L → ℕ) (s : Locking ι L) : Prop :=
  ∃ held : ι → List L, (∀ i, (held i).Nodup) ∧ (∀ i, Ordered rank (held i) (s.programs i)) ∧
    ∀ l i, s.holder l = some i ↔ l ∈ held i

omit [DecidableEq ι] in
lemma held_start {programs : ι → List (LockOp L)} (h : ∀ i, Ordered rank [] (programs i)) :
    Held rank (start programs) :=
  ⟨fun _ => [], fun _ => List.nodup_nil, h, fun _ _ => by simp [start]⟩

/-- One operation keeps the order. -/
lemma held_step (hs : Held rank s) (h : s.step i = some t) : Held rank t := by
  obtain ⟨held, hnodup, hordered, hholder⟩ := hs
  have hi := hordered i
  rw [step] at h
  split at h
  next => cases h
  next l rest hprogram =>
    split_ifs at h with hfree
    obtain rfl := Option.some.inj h
    rw [hprogram] at hi
    obtain ⟨hlower, hrest⟩ := hi
    have hnew : ∀ j, l ∉ held j := fun j hj => by
      rw [← hholder, hfree.1] at hj
      cases hj
    refine ⟨Function.update held i (l :: held i), fun j => ?_, fun j => ?_, fun l' j => ?_⟩
    · rcases eq_or_ne j i with rfl | hne
      · simpa using ⟨hnew j, hnodup j⟩
      · simpa [hne] using hnodup j
    · rcases eq_or_ne j i with rfl | hne
      · simpa using hrest
      · simpa [hne] using hordered j
    · rcases eq_or_ne l' l with rfl | hne <;> rcases eq_or_ne j i with rfl | hne'
      · simp
      · simpa [hne'.symm, hne'] using hnew j
      · simpa [hne] using hholder l' j
      · simpa [hne, hne'] using hholder l' j
  next l rest hprogram =>
    obtain rfl := Option.some.inj h
    rw [hprogram] at hi
    obtain ⟨hmem, hrest⟩ := hi
    refine ⟨Function.update held i ((held i).erase l), fun j => ?_, fun j => ?_, fun l' j => ?_⟩
    · rcases eq_or_ne j i with rfl | hne
      · simpa using (hnodup j).erase l
      · simpa [hne] using hnodup j
    · rcases eq_or_ne j i with rfl | hne
      · simpa using hrest
      · simpa [hne] using hordered j
    · have honly : ∀ k, l ∈ held k → k = i := fun k hk => by
        rw [← hholder] at hk hmem
        exact Option.some.inj (hk.symm.trans hmem)
      rcases eq_or_ne l' l with rfl | hne <;> rcases eq_or_ne j i with rfl | hne'
      · simpa using (hnodup j).not_mem_erase
      · simpa [hne'] using fun hj => hne' (honly j hj)
      · simpa [hne, List.mem_erase_of_ne hne] using hholder l' j
      · simpa [hne, hne'] using hholder l' j
  next l rest hprogram =>
    split_ifs at h
    obtain rfl := Option.some.inj h
    rw [hprogram] at hi
    refine ⟨held, hnodup, fun j => ?_, hholder⟩
    rcases eq_or_ne j i with rfl | hne
    · simpa using hi.2
    · simpa [hne] using hordered j

/-! ### No deadlock -/

/-- A thread that holds a lock has still something to do. -/
lemma ne_nil_of_held {held : List L} {program : List (LockOp L)} {l : L}
    (h : Ordered rank held program) (hl : l ∈ held) : program ≠ [] := by
  rintro rfl
  rw [show held = [] from h] at hl
  cases hl

/-- **No deadlock.**  As long as one of finitely many threads has something to do, one of them can
do it, or comes to an operation that is not defined. -/
theorem exists_step [Finite ι] (hs : Held rank s) (h : ∃ i, s.programs i ≠ []) :
    ∃ i, (s.step i).isSome ∨ s.Strays i := by
  obtain ⟨held, hnodup, hordered, hholder⟩ := hs
  by_contra hstuck
  rw [not_exists] at hstuck
  -- each thread waits for a lock
  have hwaits : ∀ i, s.programs i ≠ [] →
      ∃ l rest, s.programs i = .acquire l :: rest ∧ s.holder l ≠ none := by
    intro i hi
    obtain ⟨hno, hdefined⟩ := not_or.mp (hstuck i)
    rw [step] at hno
    split at hno
    next hnil => exact absurd hnil hi
    next l rest hprogram =>
      refine ⟨l, rest, hprogram, fun hfree => ?_⟩
      cases hdestroyed : s.destroyed l with
      | true => exact hdefined ⟨l, rest, .inl ⟨hprogram, hdestroyed⟩⟩
      | false =>
          rw [if_pos ⟨hfree, hdestroyed⟩] at hno
          exact hno rfl
    next => exact absurd rfl hno
    next l rest hprogram =>
      by_cases hfree : s.holder l = none
      · rw [if_pos hfree] at hno
        exact absurd rfl hno
      · exact absurd ⟨l, rest, .inr ⟨hprogram, hfree⟩⟩ hdefined
  -- the one that waits for a lock of the highest rank is no exception
  have hwanted : ∀ i : { i // s.programs i ≠ [] }, ∃ l rest,
      s.programs i = .acquire l :: rest ∧ s.holder l ≠ none := fun i => hwaits i i.2
  choose wanted rest hprogram hheld using hwanted
  obtain ⟨i₀, hi₀⟩ := h
  have : Nonempty { i // s.programs i ≠ [] } := ⟨⟨i₀, hi₀⟩⟩
  obtain ⟨i, hmax⟩ := Finite.exists_max fun i => rank (wanted i)
  obtain ⟨j, hj⟩ := Option.ne_none_iff_exists'.mp (hheld i)
  have hmem := (hholder _ j).mp hj
  have hbusy := ne_nil_of_held (hordered j) hmem
  have hnext := hordered j
  rw [hprogram ⟨j, hbusy⟩] at hnext
  exact absurd (hnext.1 _ hmem) (not_lt.mpr (hmax ⟨j, hbusy⟩))

/-! ### Locks that are destroyed -/

/-- Nothing has still to be done to a lock that is destroyed, or that a thread has still to destroy
before, by this thread or by another one. -/
structure Careful (s : Locking ι L) : Prop where
  gone : ∀ i, ∀ op ∈ s.programs i, s.destroyed op.lock = false
  own : ∀ i, (s.programs i).Pairwise fun op op' => op ≠ .destroy op'.lock
  others : ∀ i j, i ≠ j → ∀ op ∈ s.programs i, ∀ op' ∈ s.programs j, op ≠ .destroy op'.lock

omit [DecidableEq ι] [DecidableEq L] in
lemma careful_iff : Careful s ↔ (∀ i, ∀ op ∈ s.programs i, s.destroyed op.lock = false) ∧
    (∀ i, (s.programs i).Pairwise fun op op' => op ≠ .destroy op'.lock) ∧
    ∀ i j, i ≠ j → ∀ op ∈ s.programs i, ∀ op' ∈ s.programs j, op ≠ .destroy op'.lock :=
  ⟨fun h => ⟨h.gone, h.own, h.others⟩, fun h => ⟨h.1, h.2.1, h.2.2⟩⟩

instance [Fintype ι] (s : Locking ι L) : Decidable (Careful s) := decidable_of_iff' _ careful_iff

/-- What an operation does to the programs and to the destroyed locks. -/
lemma step_spec (h : s.step i = some t) :
    ∃ op, s.programs i = op :: t.programs i ∧ (∀ j, j ≠ i → t.programs j = s.programs j) ∧
      ∀ l, t.destroyed l = true → s.destroyed l = true ∨ op = .destroy l := by
  rw [step] at h
  split at h
  next => cases h
  next l rest hprogram =>
    split_ifs at h
    obtain rfl := Option.some.inj h
    exact ⟨_, by simpa using hprogram, fun j hne => Function.update_of_ne hne .., fun _ => .inl⟩
  next l rest hprogram =>
    obtain rfl := Option.some.inj h
    exact ⟨_, by simpa using hprogram, fun j hne => Function.update_of_ne hne .., fun _ => .inl⟩
  next l rest hprogram =>
    split_ifs at h
    obtain rfl := Option.some.inj h
    refine ⟨_, by simpa using hprogram, fun j hne => Function.update_of_ne hne .., fun l' hl' => ?_⟩
    rcases eq_or_ne l' l with rfl | hne
    · exact .inr rfl
    · exact .inl (by simpa [hne] using hl')

/-- One operation keeps a state careful. -/
lemma careful_step (hs : Careful s) (h : s.step i = some t) : Careful t := by
  obtain ⟨op, hop, hothers, hdestroyed⟩ := step_spec h
  have hown := hs.own i
  rw [hop, List.pairwise_cons] at hown
  have hsub : ∀ j, ∀ op' ∈ t.programs j, op' ∈ s.programs j := by
    intro j op' hop'
    rcases eq_or_ne j i with rfl | hne
    · rw [hop]
      exact List.mem_cons_of_mem _ hop'
    · rwa [← hothers j hne]
  refine ⟨fun j op' hop' => ?_, fun j => ?_, fun j k hne op' hop' op'' hop'' =>
    hs.others j k hne op' (hsub j op' hop') op'' (hsub k op'' hop'')⟩
  · rw [Bool.eq_false_iff]
    intro hgone
    rcases hdestroyed _ hgone with hgone | hdestroy
    · rw [hs.gone j op' (hsub j op' hop')] at hgone
      cases hgone
    · rcases eq_or_ne j i with rfl | hne
      · exact hown.1 op' hop' hdestroy
      · refine hs.others i j hne.symm op ?_ op' (hsub j op' hop') hdestroy
        rw [hop]
        exact List.mem_cons_self
  · rcases eq_or_ne j i with rfl | hne
    · exact hown.2
    · rw [hothers j hne]
      exact hs.own j

omit [DecidableEq ι] in
/-- A lock that is held has still to be released. -/
lemma release_mem_of_held {held : List L} {program : List (LockOp L)} {l : L}
    (h : Ordered rank held program) (hl : l ∈ held) : .release l ∈ program := by
  induction program generalizing held with
  | nil =>
      rw [show held = [] from h] at hl
      cases hl
  | cons op program ih =>
      cases op with
      | acquire l' => exact List.mem_cons_of_mem _ (ih h.2 (List.mem_cons_of_mem _ hl))
      | release l' =>
          rcases eq_or_ne l l' with rfl | hne
          · exact List.mem_cons_self
          · exact List.mem_cons_of_mem _ (ih h.2 ((List.mem_erase_of_ne hne).mpr hl))
      | destroy l' => exact List.mem_cons_of_mem _ (ih h.2 hl)

omit [DecidableEq ι] in
/-- From a careful state no thread comes to an operation that is not defined. -/
lemma not_strays (hs : Held rank s) (hcareful : Careful s) (i : ι) : ¬ s.Strays i := by
  rintro ⟨l, rest, ⟨hprogram, hgone⟩ | ⟨hprogram, hheld⟩⟩
  · have hfalse := hcareful.gone i (.acquire l) (by rw [hprogram]; exact List.mem_cons_self)
    rw [LockOp.lock, hgone] at hfalse
    cases hfalse
  · obtain ⟨held, -, hordered, hholder⟩ := hs
    obtain ⟨j, hj⟩ := Option.ne_none_iff_exists'.mp hheld
    have hmem := (hholder l j).mp hj
    have hi := hordered i
    rw [hprogram] at hi
    rcases eq_or_ne i j with rfl | hne
    · exact hi.1 hmem
    · exact hcareful.others i j hne (.destroy l) (by rw [hprogram]; exact List.mem_cons_self)
        (.release l) (release_mem_of_held (hordered j) hmem) rfl

/-! ### All threads end -/

section

variable [Fintype ι]

/-- The number of operations that the threads have still to do. -/
def remaining (s : Locking ι L) : ℕ := ∑ i, (s.programs i).length

lemma remaining_step (h : s.step i = some t) : t.remaining + 1 = s.remaining := by
  obtain ⟨op, hop, hothers, -⟩ := step_spec h
  rw [remaining, remaining, ← Finset.add_sum_erase _ _ (Finset.mem_univ i),
    ← Finset.add_sum_erase _ (fun j => (s.programs j).length) (Finset.mem_univ i), hop]
  have hsame : ∑ j ∈ Finset.univ.erase i, (t.programs j).length =
      ∑ j ∈ Finset.univ.erase i, (s.programs j).length :=
    Finset.sum_congr rfl fun j hj => by rw [hothers j (Finset.ne_of_mem_erase hj)]
  rw [hsame, List.length_cons]
  omega

/-- A run has as many steps as operations are done. -/
theorem length_add_remaining (h : Run (Fires step) s as t) :
    as.length + t.remaining = s.remaining := by
  induction h with
  | nil => simp
  | snoc _ hst ih =>
      have := remaining_step hst
      rw [List.length_append, List.length_singleton]
      omega

/-- **All threads end.**  From a careful state the threads can go on until all of them have done
everything. -/
theorem exists_completion (hs : Held rank s) (hcareful : Careful s) :
    ∃ as t, Run (Fires step) s as t ∧ ∀ i, t.programs i = [] := by
  induction hn : s.remaining generalizing s with
  | zero =>
      refine ⟨[], s, .nil, fun i => ?_⟩
      have hsum := Finset.sum_eq_zero_iff.mp hn i (Finset.mem_univ i)
      exact List.length_eq_zero_iff.mp hsum
  | succ n ih =>
      have hbusy : ∃ i, s.programs i ≠ [] := by
        by_contra hdone
        rw [not_exists] at hdone
        have hzero : s.remaining = 0 :=
          Finset.sum_eq_zero fun i _ => by rw [not_not.mp (hdone i), List.length_nil]
        omega
      obtain ⟨i, hi⟩ := exists_step hs hbusy
      obtain ⟨u, hu⟩ := Option.isSome_iff_exists.mp (hi.resolve_right (not_strays hs hcareful i))
      obtain ⟨as, t, hrun, hdone⟩ := ih (held_step hs hu) (careful_step hcareful hu)
        (by have := remaining_step hu; omega)
      exact ⟨i :: as, t, .cons hu hrun, hdone⟩

/-- **Threads with ordered programs.**  Whatever such threads have done since their start: as long
as one of them has something to do, one of them can do it or comes to an operation that is not
defined; and from a careful state they can go on until all have done everything, with as many
operations as their programs have. -/
theorem run_ordered {programs : ι → List (LockOp L)} (hprograms : ∀ i, Above rank 0 (programs i))
    (h : Run (Fires step) (start programs) as s) :
    ((∃ i, s.programs i ≠ []) → ∃ i, (s.step i).isSome ∨ s.Strays i) ∧
      (Careful s → ∃ bs t, Run (Fires step) s bs t ∧ (∀ i, t.programs i = []) ∧
        (as ++ bs).length = ∑ i, (programs i).length) := by
  have hs : Held rank s := h.invariant (fun _ _ _ hs hst => held_step hs hst)
    (held_start fun i => (hprograms i).ordered)
  refine ⟨exists_step hs, fun hcareful => ?_⟩
  obtain ⟨bs, t, hrun, hdone⟩ := exists_completion hs hcareful
  have hlength := length_add_remaining (h.append hrun)
  have hnone : t.remaining = 0 :=
    Finset.sum_eq_zero fun i _ => by rw [hdone i, List.length_nil]
  rw [hnone] at hlength
  exact ⟨bs, t, hrun, hdone, hlength⟩

end

end Locking

end Transition
