/-
How the asynchronous server writes a reply.

A write to a socket that does not block takes a part of what it is offered, or fails with `EAGAIN`,
and is then tried again.

* `WriteResult`, `Sending`, `write`: the loop of `sendMsg`, by the results of its writes;
* `Exact`: what is read is in the buffer, what is accepted is a beginning of the reply, and the
  next write goes on behind it;
* `exact_write_iff`: which results keep this;
* `sendMsg_exact_iff`: a reply is sent exactly as it should be as long as no write fails with
  `EAGAIN` for the 21st time in a row, or so far behind the beginning of the reply that the print
  of the loop reads behind the buffer;
* `accepted_response`: what is accepted of a response when `sendMsg` returns true;
* `not_exact`: a byte that is sent twice.
-/
import FtThesis.Library.Runs
import FtThesis.Transport.Sending

namespace FtThesis

open Memory Transition

namespace AsyncServer

/-! ### The loop -/

/-- What a call of `write` comes to: it takes `k + 1` bytes, or all that it is offered when these
are fewer; or it returns `0`; or it fails with `EAGAIN`, or with another error. -/
inductive WriteResult
  | sent (k : ℕ)
  | zero
  | again
  | failed
deriving DecidableEq

/-- The state of `sendMsg` before a write: the bytes that are counted as sent, which is also how
far the pointer is behind the beginning of the buffer; how many tries are left in the inner loop,
or `0` at the write of the outer one; what the socket has accepted; which ranges of memory were
read, each with its place and its length; and what was returned. -/
structure Sending where
  totalSentBytes : ℤ
  tries : ℕ
  accepted : List UInt8
  reads : List (ℤ × ℕ)
  returned : Option Bool
deriving DecidableEq

/-- The `n` bytes from a place of the buffer on. -/
def bytesFrom (retVal : ℤ → UInt8) (place : ℤ) (n : ℕ) : List UInt8 :=
  (List.range n).map fun i : ℕ => retVal (place + i)

/-- What follows the writes in the outer loop, with the last result, and the test of this loop. -/
def Sending.advance (length : ℕ) (s : Sending) (ret : ℤ) : Sending :=
  let totalSentBytes := s.totalSentBytes + ret
  { s with
    totalSentBytes := totalSentBytes
    tries := 0
    returned := if totalSentBytes < length then none else some (totalSentBytes = length) }

/-- `sendMsg`, up to its first write. -/
def sendMsg (length : ℕ) : Sending :=
  let s : Sending := ⟨0, 0, [], [], none⟩
  if Client.maxRetValLength + 7 + 1 < length then { s with returned := some false }
  else s.advance length 0

/-- `sendMsg`, from one write to the next one. -/
def write (retVal : ℤ → UInt8) (length : ℕ) (s : Sending) (r : WriteResult) : Option Sending :=
  if s.returned.isSome then none
  else
    match r with
    | .sent k =>
        let ret := min (k + 1) (length - s.totalSentBytes).toNat
        some (Sending.advance length
          { s with
            accepted := s.accepted ++ bytesFrom retVal s.totalSentBytes ret
            reads := s.reads ++ [(s.totalSentBytes, ret)] } ret)
    | .zero | .failed => some { s with returned := some false }
    | .again =>
        let tries := if s.tries = 0 then 20 else s.tries - 1
        -- without a try left, the result `-1` is taken for a number of bytes
        if tries = 0 then some (s.advance length (-1))
        -- with one, `length` bytes from the pointer on are printed
        else some { s with tries := tries, reads := s.reads ++ [(s.totalSentBytes, length)] }

/-! ### The bytes of the reply -/

section

variable (retVal : ℤ → UInt8)

@[simp] lemma length_bytesFrom (place : ℤ) (n : ℕ) : (bytesFrom retVal place n).length = n := by
  simp [bytesFrom]

lemma bytesFrom_add (place : ℤ) (m n : ℕ) :
    bytesFrom retVal place (m + n)
      = bytesFrom retVal place m ++ bytesFrom retVal (place + m) n := by
  simp only [bytesFrom, List.range_add, List.map_append, List.map_map]
  refine congrArg _ (List.map_congr_left fun i _ => ?_)
  simp [add_assoc]

/-- The beginnings of a range. -/
lemma isPrefix_bytesFrom_iff {place : ℤ} {n : ℕ} {l : List UInt8} :
    l <+: bytesFrom retVal place n ↔ l = bytesFrom retVal place l.length ∧ l.length ≤ n := by
  constructor
  · intro h
    have hle : l.length ≤ n := by simpa using h.length_le
    obtain ⟨k, hk⟩ := Nat.exists_eq_add_of_le hle
    rw [hk, bytesFrom_add] at h
    refine ⟨List.IsPrefix.eq_of_length ?_ (by simp), hle⟩
    exact List.prefix_of_prefix_length_le h (List.prefix_append _ _) (by simp)
  · rintro ⟨heq, hle⟩
    obtain ⟨k, hk⟩ := Nat.exists_eq_add_of_le hle
    rw [hk, bytesFrom_add, ← heq]
    exact List.prefix_append _ _

end

/-! ### Exact sending -/

/-- In a buffer of `size` bytes with a reply of `length` bytes: nothing outside of the buffer is
read, what is accepted is a beginning of the reply, and the whole reply when true is returned; and
the next write goes on behind what is accepted. -/
structure Exact (retVal : ℤ → UInt8) (length size : ℕ) (s : Sending) : Prop where
  inBuffer : ∀ r ∈ s.reads, 0 ≤ r.1 ∧ r.1 + r.2 ≤ size
  accepted_beginning : s.accepted <+: bytesFrom retVal 0 length
  whole : s.returned = some true → s.accepted = bytesFrom retVal 0 length
  goesOn : s.totalSentBytes = s.accepted.length

/-- A write that fails with `EAGAIN` is not the last try, and as many bytes as the reply has are
in the buffer from its place on. -/
def TriesInBuffer (length size : ℕ) (s : Sending) (r : WriteResult) : Prop :=
  r = .again → s.tries ≠ 1 ∧ s.totalSentBytes + length ≤ size

/-- There is something left to write as long as nothing is returned. -/
def Unfinished (length : ℕ) (s : Sending) : Prop :=
  s.returned = none → s.totalSentBytes < length

section

variable {retVal : ℤ → UInt8} {length size : ℕ} {s t : Sending} {r : WriteResult}

lemma unfinished_advance (ret : ℤ) : Unfinished length (s.advance length ret) := by
  intro h
  simp only [Sending.advance] at h ⊢
  split_ifs at h with hlt
  exact hlt

lemma unfinished_sendMsg : Unfinished length (sendMsg length) := by
  rw [sendMsg]
  split_ifs
  · exact fun h => absurd h (by simp)
  · exact unfinished_advance 0

/-- The three things that a write can do: to take bytes, to end the loop, and to fail with
`EAGAIN`. -/
lemma write_cases (h : write retVal length s r = some t) :
    s.returned = none ∧
      ((∃ k, r = .sent k ∧
          let ret := min (k + 1) (length - s.totalSentBytes).toNat
          t = Sending.advance length
            { s with
              accepted := s.accepted ++ bytesFrom retVal s.totalSentBytes ret
              reads := s.reads ++ [(s.totalSentBytes, ret)] } ret) ∨
        ((r = .zero ∨ r = .failed) ∧ t = { s with returned := some false }) ∨
        (r = .again ∧ s.tries = 1 ∧ t = s.advance length (-1)) ∨
        (r = .again ∧ s.tries ≠ 1 ∧ ∃ tries,
          t = { s with tries := tries, reads := s.reads ++ [(s.totalSentBytes, length)] })) := by
  rw [write.eq_def] at h
  by_cases hreturned : s.returned.isSome = true
  · rw [if_pos hreturned] at h
    exact absurd h (by simp)
  rw [if_neg hreturned] at h
  refine ⟨by simpa using hreturned, ?_⟩
  cases r with
  | sent k => exact .inl ⟨k, rfl, (Option.some.inj h).symm⟩
  | zero => exact .inr (.inl ⟨.inl rfl, (Option.some.inj h).symm⟩)
  | failed => exact .inr (.inl ⟨.inr rfl, (Option.some.inj h).symm⟩)
  | again =>
      rcases eq_or_ne s.tries 1 with hone | hone
      · rw [hone] at h
        exact .inr (.inr (.inl ⟨rfl, hone, (Option.some.inj h).symm⟩))
      · have hleft : (if s.tries = 0 then 20 else s.tries - 1) ≠ 0 := by
          split_ifs <;> omega
        simp only [if_neg hleft] at h
        exact .inr (.inr (.inr ⟨rfl, hone, _, (Option.some.inj h).symm⟩))

lemma unfinished_write (hs : Unfinished length s) (h : write retVal length s r = some t) :
    Unfinished length t := by
  obtain ⟨hnone, ⟨k, -, rfl⟩ | ⟨-, rfl⟩ | ⟨-, -, rfl⟩ | ⟨-, -, tries, rfl⟩⟩ := write_cases h
  · exact unfinished_advance _
  · exact fun h => absurd h (by simp)
  · exact unfinished_advance _
  · exact fun _ => hs hnone

/-- Bytes that are taken from the place behind the accepted ones. -/
lemma Exact.sent (hs : Exact retVal length size s) (hle : length ≤ size) {n : ℕ}
    (hn : s.accepted.length + n ≤ length) : Exact retVal length size (Sending.advance length
      { s with
        accepted := s.accepted ++ bytesFrom retVal s.totalSentBytes n
        reads := s.reads ++ [(s.totalSentBytes, n)] } n) := by
  have hgoesOn := hs.goesOn
  obtain ⟨haccepted, -⟩ := (isPrefix_bytesFrom_iff retVal).mp hs.accepted_beginning
  have hall : s.accepted ++ bytesFrom retVal s.totalSentBytes n
      = bytesFrom retVal 0 (s.accepted.length + n) := by
    rw [bytesFrom_add, ← haccepted, hgoesOn, zero_add]
  have hlength : (s.accepted ++ bytesFrom retVal s.totalSentBytes n).length
      = s.accepted.length + n := by simp
  exact
    { inBuffer := by
        intro r hr
        rcases List.mem_append.mp hr with hr | hr
        · exact hs.inBuffer r hr
        · obtain rfl := List.mem_singleton.mp hr
          simp only
          omega
      accepted_beginning := by
        refine (isPrefix_bytesFrom_iff retVal).mpr ⟨?_, ?_⟩
        · exact hall.trans (by rw [← hlength]; rfl)
        · exact hlength.le.trans hn
      whole := by
        intro hreturned
        simp only [Sending.advance] at hreturned ⊢
        split_ifs at hreturned
        have heq : s.totalSentBytes + n = length := by simpa using hreturned
        have hsum : s.accepted.length + n = length := by omega
        rw [hall, hsum]
      goesOn := by
        simp only [Sending.advance, hlength]
        omega }

/-- A write keeps the sending exact exactly when it meets the condition. -/
lemma exact_write_iff (hle : length ≤ size) (hunfinished : Unfinished length s)
    (hs : Exact retVal length size s) (h : write retVal length s r = some t) :
    Exact retVal length size t ↔ TriesInBuffer length size s r := by
  have hgoesOn := hs.goesOn
  obtain ⟨hnone, hcases⟩ := write_cases h
  have hlt := hunfinished hnone
  rcases hcases with ⟨k, rfl, rfl⟩ | ⟨hr, rfl⟩ | ⟨rfl, hone, rfl⟩ | ⟨rfl, hne, tries, rfl⟩
  · exact iff_of_true (hs.sent hle (by omega)) fun hagain => absurd hagain (by simp)
  · refine iff_of_true ⟨hs.inBuffer, hs.accepted_beginning, by simp, hgoesOn⟩ ?_
    rintro rfl
    simp at hr
  · refine iff_of_false (fun hexact => ?_) fun hcond => (hcond rfl).1 hone
    have hback : s.totalSentBytes + -1 = s.accepted.length := hexact.goesOn
    omega
  · constructor
    · intro hexact _
      exact ⟨hne, (hexact.inBuffer (s.totalSentBytes, length) (by simp)).2⟩
    · intro hcond
      have hplace := (hcond rfl).2
      refine ⟨fun r hr => ?_, hs.accepted_beginning, fun h => hs.whole h, hgoesOn⟩
      rcases List.mem_append.mp hr with hr | hr
      · exact hs.inBuffer r hr
      · obtain rfl := List.mem_singleton.mp hr
        simp only
        omega

lemma exact_sendMsg : Exact retVal length size (sendMsg length) := by
  rw [sendMsg]
  split_ifs with hlong
  · exact ⟨by simp, List.nil_prefix, by simp, rfl⟩
  · refine ⟨by simp [Sending.advance], List.nil_prefix, fun h => ?_, by simp [Sending.advance]⟩
    simp only [Sending.advance] at h ⊢
    split_ifs at h with hlt
    obtain rfl : length = 0 := by omega
    rfl

/-- At the end of a run that meets the condition the sending is exact. -/
lemma exact_of_run (hle : length ≤ size) {rs : List WriteResult}
    (hrun : Run (When (TriesInBuffer length size) (Fires (write retVal length)))
      (sendMsg length) rs s) : Exact retVal length size s := by
  have hinv := hrun.invariant (I := fun s => Unfinished length s ∧ Exact retVal length size s)
    (fun _ _ _ hs hst =>
      ⟨unfinished_write hs.1 hst.2, (exact_write_iff hle hs.1 hs.2 hst.2).mpr hst.1⟩)
    ⟨unfinished_sendMsg, exact_sendMsg⟩
  exact hinv.2

end

/-- **Exact sending.**  For every reply, in a buffer in which it fits, and all results of the
writes: throughout the run nothing outside of the buffer is read, what the socket has accepted is a
beginning of the reply, with which the next write goes on, and true is returned for the whole reply
only, exactly when no write fails with `EAGAIN` as the last try, or at a place from which the
length of the reply reaches behind the buffer. -/
theorem sendMsg_exact_iff (retVal : ℤ → UInt8) {length size : ℕ} (hle : length ≤ size)
    (rs : List WriteResult) (s : Sending) :
    Run (Into (Exact retVal length size) (Fires (write retVal length))) (sendMsg length) rs s ↔
      Run (When (TriesInBuffer length size) (Fires (write retVal length))) (sendMsg length) rs s :=
  Run.into_iff_when (I := Unfinished length) (fun _ _ _ hs hst => unfinished_write hs hst)
    (fun _ _ _ hunfinished hs hst => exact_write_iff hle hunfinished hs hst)
    unfinished_sendMsg exact_sendMsg

/-- What `writeResponseToClient` hands to `sendMsg`: the buffer with a header in front of the
return value. -/
def responseBuffer (succeed : Bool) (retVal : Mem) (retValLen : ℕ) : ℤ → UInt8 :=
  fun place => memcpy retVal 0 (responseHeader succeed retValLen) place.toNat

/-- In a run that meets the condition and returns true, the socket accepts the response. -/
theorem accepted_response (succeed : Bool) (retVal : Mem) {retValLen size : ℕ}
    (h : retValLen ≤ Client.maxRetValLength) (hle : retValLen + 8 ≤ size) {rs : List WriteResult}
    {s : Sending}
    (hrun : Run (When (TriesInBuffer (retValLen + 8) size)
      (Fires (write (responseBuffer succeed retVal retValLen) (retValLen + 8))))
      (sendMsg (retValLen + 8)) rs s)
    (htrue : s.returned = some true) :
    s.accepted = writeResponseToClient succeed (fun q => retVal (8 + q)) retValLen := by
  have hexact := exact_of_run hle hrun
  have hmessage := read_response succeed retVal (lt_of_le_of_lt h (by decide))
  have hpayload : read (fun q => retVal (8 + q)) 0 retValLen = read retVal 8 retValLen := by
    simp [Memory.read]
  have hbytes : bytesFrom (responseBuffer succeed retVal retValLen) 0 (retValLen + 8)
      = read (memcpy retVal 0 (responseHeader succeed retValLen)) 0 (retValLen + 8) := by
    simp [bytesFrom, responseBuffer, Memory.read]
  have hfits : ¬ Client.maxRetValLength + 7 + 1 < retValLen + 8 := by omega
  rw [hexact.whole htrue, hbytes, hmessage, writeResponseToClient, if_neg hfits, hpayload]

/-- Three bytes in a larger buffer, written in two parts with a failure before each of them. -/
theorem sendMsg_exact_three :
    Run (Into (Exact (fun place => UInt8.ofNat place.toNat) 3 8)
        (Fires (write (fun place => UInt8.ofNat place.toNat) 3))) (sendMsg 3)
      [.again, .sent 0, .again, .sent 5]
      ⟨3, 0, [0, 1, 2], [(0, 3), (0, 1), (1, 3), (1, 2)], some true⟩ := by
  refine (sendMsg_exact_iff _ (by decide) _ _).mpr ?_
  refine .cons ⟨?_, rfl⟩ (.cons ⟨?_, rfl⟩ (.cons ⟨?_, rfl⟩ (.single ⟨?_, rfl⟩)))
  · exact fun _ => ⟨by decide, by decide⟩
  · exact fun h => by cases h
  · exact fun _ => ⟨by decide, by decide⟩
  · exact fun h => by cases h

/-- The results of a peer that takes one byte, none for a second, and then two bytes. -/
def slowPeer : List WriteResult := .sent 0 :: List.replicate 21 .again ++ [.sent 1]

/-- The first byte is sent twice; and when no byte was sent before, one in front of the buffer
is. -/
theorem not_exact :
    (¬ ∀ (retVal : ℤ → UInt8) (length : ℕ) (rs : List WriteResult) (s : Sending),
      length ≤ Client.maxRetValLength + 7 + 1 →
      Run (Fires (write retVal length)) (sendMsg length) rs s →
      s.accepted <+: bytesFrom retVal 0 length) ∧
    ¬ ∀ (retVal : ℤ → UInt8) (length : ℕ) (rs : List WriteResult) (s : Sending),
      length ≤ Client.maxRetValLength + 7 + 1 →
      Run (Fires (write retVal length)) (sendMsg length) rs s →
      ∀ r ∈ s.reads, 0 ≤ r.1 ∧ r.1 + r.2 ≤ Client.maxRetValLength + 7 + 1 := by
  let retVal : ℤ → UInt8 := fun place => UInt8.ofNat place.toNat
  constructor
  · intro h
    have hrun : (slowPeer.foldlM (write retVal 3) (sendMsg 3)).map Sending.accepted
        = some [0, 0, 1] := by decide
    obtain ⟨s, hs, haccepted⟩ := Option.map_eq_some_iff.mp hrun
    have hbeginning := h retVal 3 slowPeer s (by decide) (Run.of_foldlM hs)
    rw [haccepted] at hbeginning
    exact absurd hbeginning (by decide)
  · intro h
    have hrun : (slowPeer.tail.foldlM (write retVal 3) (sendMsg 3)).map
        (fun s => s.reads.getLast?) = some (some (-1, 2)) := by decide
    obtain ⟨s, hs, hreads⟩ := Option.map_eq_some_iff.mp hrun
    have hin := h retVal 3 slowPeer.tail s (by decide) (Run.of_foldlM hs) (-1, 2)
      (List.mem_of_getLast? hreads)
    exact absurd hin.1 (by decide)

end AsyncServer

end FtThesis
