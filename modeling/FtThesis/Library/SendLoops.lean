/-
Loops that send a message over a socket.

A send that succeeds may take a part of what is left only.  A failed one is tried one more
time.

* `SendResult`: what one call of `send` comes to; `sendLoop`: the loop, by these results;
* `Carries`: results with which a given number of bytes are written;
* `sendLoop_iff`: the loop succeeds exactly with such results, and then only has it written
  the whole message.
-/
import Mathlib.Tactic

namespace Socket

/-- What a call of `send` comes to: it takes `k + 1` bytes, or all that are left when these
are fewer; or it returns `0`; or it fails. -/
inductive SendResult
  | sent (k : ℕ)
  | zero
  | failed
deriving DecidableEq

/-- How a send loop ends: it returns whether it succeeded, or the process ends. -/
inductive SendEnding
  | returned (succeeded : Bool)
  | exited
deriving DecidableEq

/-- A loop that sends `msg`: how it ends, and what it writes.  `retrying` says that the send
before failed, and `onZero` what the loop does when a send returns `0`.  When there are no
more results, all sends fail. -/
def sendLoop (onZero : (retrying : Bool) → SendEnding) :
    List SendResult → (retrying : Bool) → List UInt8 → SendEnding × List UInt8
  | _, _, [] => (.returned true, [])
  | [], _, _ :: _ => (.returned false, [])
  | .sent k :: rs, _, b :: bs =>
      let r := sendLoop onZero rs false (bs.drop k)
      (r.1, b :: bs.take k ++ r.2)
  | .zero :: _, retrying, _ :: _ => (onZero retrying, [])
  | .failed :: rs, retrying, b :: bs =>
      if retrying then (.returned false, []) else sendLoop onZero rs true (b :: bs)

/-- How many bytes a send with this result takes at most. -/
def SendResult.bytes : SendResult → ℕ
  | .sent k => k + 1
  | _ => 0

/-- Not both sends fail. -/
def NotBothFailed (r r' : SendResult) : Prop := ¬ (r = .failed ∧ r' = .failed)

/-- The results, up to some point, are enough for `n` bytes; until then no send returns `0`,
and no two ones fail one after the other. -/
def Carries (rs : List SendResult) (n : ℕ) : Prop :=
  ∃ before, before <+: rs ∧ n ≤ (before.map SendResult.bytes).sum ∧ .zero ∉ before ∧
    before.IsChain NotBothFailed

/-- The same when `retrying` says whether the send before failed. -/
def CarriesOn (rs : List SendResult) (retrying : Bool) (n : ℕ) : Prop :=
  ∃ before, before <+: rs ∧ n ≤ (before.map SendResult.bytes).sum ∧ .zero ∉ before ∧
    before.IsChain NotBothFailed ∧ (retrying = true → before.head? ≠ some .failed)

section

variable {rs : List SendResult} {retrying : Bool} {n : ℕ}

lemma carriesOn_false_iff : CarriesOn rs false n ↔ Carries rs n := by
  simp [CarriesOn, Carries]

lemma carriesOn_zero : CarriesOn rs retrying 0 :=
  ⟨[], List.nil_prefix, Nat.zero_le _, List.not_mem_nil, .nil, by simp⟩

lemma not_carriesOn_nil : ¬ CarriesOn [] retrying (n + 1) := by
  rintro ⟨before, hprefix, hsum, -⟩
  obtain rfl := List.prefix_nil.mp hprefix
  simp at hsum

/-- What is needed of the first result, and of those behind it. -/
lemma carriesOn_cons_iff {r : SendResult} :
    CarriesOn (r :: rs) retrying (n + 1) ↔
      ∃ before, before <+: rs ∧ n + 1 ≤ r.bytes + (before.map SendResult.bytes).sum ∧
        r ≠ .zero ∧ .zero ∉ before ∧ (r :: before).IsChain NotBothFailed ∧
          (retrying = true → r ≠ .failed) := by
  constructor
  · rintro ⟨before, hprefix, hsum, hzero, hchain, hhead⟩
    cases before with
    | nil => simp at hsum
    | cons r' before =>
        obtain ⟨rfl, htail⟩ := List.cons_prefix_cons.mp hprefix
        rw [List.map_cons, List.sum_cons] at hsum
        rw [List.mem_cons, not_or] at hzero
        exact ⟨before, htail, hsum, Ne.symm hzero.1, hzero.2, hchain, by simpa using hhead⟩
  · rintro ⟨before, hprefix, hsum, hne, hzero, hchain, hhead⟩
    refine ⟨r :: before, List.cons_prefix_cons.mpr ⟨rfl, hprefix⟩, ?_, ?_, hchain, ?_⟩
    · rwa [List.map_cons, List.sum_cons]
    · rw [List.mem_cons, not_or]
      exact ⟨Ne.symm hne, hzero⟩
    · simpa using hhead

lemma carriesOn_sent_iff {k : ℕ} :
    CarriesOn (.sent k :: rs) retrying (n + 1) ↔ CarriesOn rs false (n - k) := by
  rw [carriesOn_cons_iff]
  have hsum (total : ℕ) : n + 1 ≤ SendResult.bytes (.sent k) + total ↔ n - k ≤ total := by
    simp only [SendResult.bytes]
    omega
  have hchain (before : List SendResult) :
      (.sent k :: before).IsChain NotBothFailed ↔ before.IsChain NotBothFailed := by
    cases before <;> simp [NotBothFailed]
  simp [CarriesOn, hsum, hchain]

lemma not_carriesOn_zero : ¬ CarriesOn (.zero :: rs) retrying (n + 1) := by
  rw [carriesOn_cons_iff]
  rintro ⟨before, -, -, hne, -⟩
  exact hne rfl

lemma carriesOn_failed_iff :
    CarriesOn (.failed :: rs) retrying (n + 1) ↔ retrying = false ∧ CarriesOn rs true (n + 1) := by
  rw [carriesOn_cons_iff]
  have hchain (before : List SendResult) :
      (.failed :: before).IsChain NotBothFailed ↔
        before.IsChain NotBothFailed ∧ before.head? ≠ some .failed := by
    cases before <;> simp [NotBothFailed, and_comm]
  cases retrying <;> simp [CarriesOn, SendResult.bytes, hchain]

end

/-! ### What the loop does -/

section

variable (onZero : (retrying : Bool) → SendEnding)

variable (honZero : ∀ retrying, onZero retrying ≠ .returned true)

include honZero

/-- The loop succeeds exactly when the results carry the message. -/
lemma sendLoop_succeeds_iff (rs : List SendResult) (retrying : Bool) (msg : List UInt8) :
    (sendLoop onZero rs retrying msg).1 = .returned true ↔ CarriesOn rs retrying msg.length := by
  induction rs generalizing retrying msg with
  | nil =>
      cases msg with
      | nil => simp [sendLoop, carriesOn_zero]
      | cons b bs => simp [sendLoop, not_carriesOn_nil]
  | cons r rs ih =>
      cases msg with
      | nil => simp [sendLoop, carriesOn_zero]
      | cons b bs =>
          cases r with
          | sent k => simp only [sendLoop, ih, List.length_drop, List.length_cons,
              carriesOn_sent_iff]
          | zero => simp [sendLoop, honZero, not_carriesOn_zero]
          | failed => cases retrying <;> simp [sendLoop, ih, carriesOn_failed_iff]

/-- The loop has written the whole message exactly when it succeeds. -/
lemma written_eq_iff (rs : List SendResult) (retrying : Bool) (msg : List UInt8) :
    (sendLoop onZero rs retrying msg).2 = msg ↔
      (sendLoop onZero rs retrying msg).1 = .returned true := by
  induction rs generalizing retrying msg with
  | nil => cases msg <;> simp [sendLoop]
  | cons r rs ih =>
      cases msg with
      | nil => simp [sendLoop]
      | cons b bs =>
          cases r with
          | sent k =>
              have hsplit : bs.take k ++ (sendLoop onZero rs false (bs.drop k)).2 = bs ↔
                  (sendLoop onZero rs false (bs.drop k)).2 = bs.drop k := by
                constructor
                · intro h
                  exact List.append_cancel_left (h.trans (List.take_append_drop k bs).symm)
                · intro h
                  rw [h, List.take_append_drop]
              simp only [sendLoop, List.cons_append, List.cons.injEq, true_and, hsplit, ih]
          | zero => simp [sendLoop, honZero]
          | failed => cases retrying <;> simp [sendLoop, ih]

/-- A loop at its start succeeds exactly with results that carry the message, and only then
it has written the whole message. -/
theorem sendLoop_iff (rs : List SendResult) (msg : List UInt8) :
    ((sendLoop onZero rs false msg).1 = .returned true ↔ Carries rs msg.length) ∧
      ((sendLoop onZero rs false msg).2 = msg ↔ Carries rs msg.length) := by
  have hcarries : (sendLoop onZero rs false msg).1 = .returned true ↔ Carries rs msg.length :=
    (sendLoop_succeeds_iff onZero honZero rs false msg).trans carriesOn_false_iff
  exact ⟨hcarries, (written_eq_iff onZero honZero rs false msg).trans hcarries⟩

end

end Socket
