/-
What the reader of a socket sees.

The results of its reads are cut out of a list of events: chunks of the byte
stream and, between them, reads that find no data.

* `Event`: one event; `pushBack`: what is left of a chunk;
* `stream`: the bytes of a list of events;
* `waits`: at how many bytes each read that finds no data happens;
* `Delivers`: there are no failures, and the stream does not end;
* `Leaves`: what is left when the next `k` bytes are read;
* `advance`: the events behind the next `k` bytes, with `advance_spec`, and `advance_two_spec` for
  two parts that are read one after the other;
* `awaitData`: what a reader finds that waits for data first;
* `weight`: decreases with every read.
-/
import Mathlib.Tactic

namespace Socket

/-- What can happen at a socket: a chunk of bytes, no data yet, a failure, and the
end of the stream. -/
inductive Event
  | data (b : UInt8) (bs : List UInt8)
  | again
  | fail
  | eof
deriving DecidableEq

/-- Bytes that are left in front of the later events. -/
def pushBack : List UInt8 → List Event → List Event
  | [], ev => ev
  | b :: bs, ev => .data b bs :: ev

/-- The bytes that are delivered. -/
def stream : List Event → List UInt8
  | [] => []
  | .data b bs :: ev => b :: bs ++ stream ev
  | _ :: ev => stream ev

/-- For each event without data, how many bytes are delivered before it. -/
def waits : List Event → List ℕ
  | [] => []
  | .data _ bs :: ev => (waits ev).map (· + (bs.length + 1))
  | .again :: ev => 0 :: waits ev
  | _ :: ev => waits ev

/-- A bound for the number of reads. -/
def weight : List Event → ℕ
  | [] => 0
  | .data _ bs :: ev => bs.length + 2 + weight ev
  | _ :: ev => 1 + weight ev

/-- Only data, and reads that find none. -/
def Delivers (ev : List Event) : Prop := ∀ e ∈ ev, e ≠ .fail ∧ e ≠ .eof

@[simp] lemma stream_pushBack (bs : List UInt8) (ev : List Event) :
    stream (pushBack bs ev) = bs ++ stream ev := by
  cases bs <;> rfl

@[simp] lemma waits_pushBack (bs : List UInt8) (ev : List Event) :
    waits (pushBack bs ev) = (waits ev).map (· + bs.length) := by
  cases bs <;> simp [pushBack, waits]

lemma pushBack_append (bs : List UInt8) (ev ev' : List Event) :
    pushBack bs (ev ++ ev') = pushBack bs ev ++ ev' := by
  cases bs <;> rfl

section

variable (b : UInt8) (bs : List UInt8) (ev : List Event)

lemma length_stream_data :
    (stream (.data b bs :: ev)).length = bs.length + 1 + (stream ev).length := by
  rw [stream, List.length_append, List.length_cons]

/-- With a whole chunk, as much of what is behind it. -/
lemma take_stream_chunk (n : ℕ) :
    (stream (.data b bs :: ev)).take (n + (bs.length + 1)) = b :: bs ++ (stream ev).take n := by
  rw [stream, List.take_append, List.take_of_length_le (by simp), List.length_cons,
    Nat.add_sub_cancel]

lemma drop_stream_chunk (n : ℕ) :
    (stream (.data b bs :: ev)).drop (n + (bs.length + 1)) = (stream ev).drop n := by
  rw [stream, List.drop_append, List.drop_of_length_le (by simp), List.length_cons,
    Nat.add_sub_cancel, List.nil_append]

/-- A part of the first chunk. -/
lemma take_stream_split {k : ℕ} (hk : k ≤ bs.length + 1) :
    (stream (.data b bs :: ev)).take k = (b :: bs).take k := by
  rw [stream, List.take_append_of_le_length (by simpa using hk)]

lemma drop_stream_split {k : ℕ} (hk : k ≤ bs.length + 1) :
    (stream (.data b bs :: ev)).drop k = stream (pushBack ((b :: bs).drop k) ev) := by
  rw [stream, stream_pushBack, List.drop_append_of_le_length (by simpa using hk)]

end

lemma weight_pushBack_le (bs : List UInt8) (ev : List Event) :
    weight (pushBack bs ev) ≤ bs.length + 1 + weight ev := by
  cases bs
  · simp [pushBack]
  · simp only [pushBack, weight, List.length_cons]
    omega

/-- What is left of a chunk weighs less than the chunk. -/
lemma weight_pushBack_drop_lt (b : UInt8) (bs : List UInt8) (ev : List Event) {k : ℕ}
    (hk : 0 < k) : weight (pushBack ((b :: bs).drop k) ev) < weight (.data b bs :: ev) := by
  calc weight (pushBack ((b :: bs).drop k) ev)
      ≤ ((b :: bs).drop k).length + 1 + weight ev := weight_pushBack_le _ _
    _ < bs.length + 2 + weight ev := by
        rw [List.length_drop, List.length_cons]
        omega

lemma delivers_pushBack {bs : List UInt8} {ev : List Event} (h : Delivers ev) :
    Delivers (pushBack bs ev) := by
  cases bs with
  | nil => exact h
  | cons b bs =>
      intro e he
      rcases List.mem_cons.mp he with rfl | he
      · simp
      · exact h e he

lemma Delivers.tail {e : Event} {ev : List Event} (h : Delivers (e :: ev)) : Delivers ev :=
  fun e' he => h e' (List.mem_cons_of_mem _ he)

lemma le_length_stream {ev : List Event} {p : ℕ} (h : p ∈ waits ev) : p ≤ (stream ev).length := by
  induction ev generalizing p with
  | nil => simp [waits] at h
  | cons e ev ih =>
      cases e with
      | data b bs =>
          obtain ⟨q, hq, rfl⟩ := List.mem_map.mp h
          have := ih hq
          rw [length_stream_data]
          omega
      | again =>
          rcases List.mem_cons.mp h with rfl | h
          · exact Nat.zero_le _
          · exact ih h
      | fail => exact ih h
      | eof => exact ih h

/-- The events behind the next `k` bytes. -/
def advance : List Event → ℕ → List Event
  | [], _ => []
  | .data b bs :: ev, k =>
      if k = 0 then .data b bs :: ev
      else if bs.length + 1 ≤ k then advance ev (k - (bs.length + 1))
      else pushBack ((b :: bs).drop k) ev
  | e :: ev, k => if k = 0 then e :: ev else advance ev k

@[simp] lemma advance_zero (ev : List Event) : advance ev 0 = ev := by
  cases ev with
  | nil => rfl
  | cons e ev => cases e <;> rfl

lemma advance_chunk (b : UInt8) (bs : List UInt8) (ev : List Event) (n : ℕ) :
    advance (.data b bs :: ev) (n + (bs.length + 1)) = advance ev n := by
  rw [advance, if_neg (by omega), if_pos (by omega), Nat.add_sub_cancel]

lemma advance_split (b : UInt8) {bs : List UInt8} (ev : List Event) {k : ℕ} (hpos : k ≠ 0)
    (hlt : k < bs.length + 1) :
    advance (.data b bs :: ev) k = pushBack ((b :: bs).drop k) ev := by
  rw [advance, if_neg hpos, if_neg (Nat.not_le.mpr hlt)]

/-- The first `k` bytes are read, and leave `ev'`: the rest of the stream, with the reads
without data as they come there. -/
structure Leaves (ev : List Event) (k : ℕ) (ev' : List Event) : Prop where
  stream_eq : stream ev' = (stream ev).drop k
  waits_eq : waits ev = (waits ev').map (· + k)
  delivers : Delivers ev'

namespace Leaves

variable {ev ev' ev'' : List Event} {k n : ℕ}

lemma le_length (h : Leaves ev k ev') (hle : k + n ≤ (stream ev).length) :
    n ≤ (stream ev').length := by
  rw [h.stream_eq, List.length_drop]
  omega

lemma quiet (h : Leaves ev k ev') (hquiet : ∀ p ∈ waits ev, k + n ≤ p) :
    ∀ p ∈ waits ev', n ≤ p := by
  intro p hp
  have hle : k + n ≤ p + k := hquiet _ (h.waits_eq ▸ List.mem_map_of_mem hp)
  omega

lemma trans (h : Leaves ev k ev') (h' : Leaves ev' n ev'') : Leaves ev (k + n) ev'' := by
  refine ⟨?_, ?_, h'.delivers⟩
  · rw [h'.stream_eq, h.stream_eq, List.drop_drop]
  · rw [h.waits_eq, h'.waits_eq, List.map_map]
    refine List.map_congr_left fun p _ => ?_
    rw [Function.comp_apply]
    omega

end Leaves

section

variable {ev : List Event} {k : ℕ} (hev : Delivers ev) (hk : k ≤ (stream ev).length)
  (hquiet : ∀ p ∈ waits ev, k ≤ p)

include hev hk hquiet

/-- If no read without data comes before the `k`-th byte, the first `k` bytes leave what is
behind them. -/
lemma advance_spec : Leaves ev k (advance ev k) := by
  induction ev generalizing k with
  | nil =>
      obtain rfl : k = 0 := by simpa [stream] using hk
      exact ⟨rfl, rfl, hev⟩
  | cons e ev ih =>
      rcases eq_or_ne k 0 with rfl | hzero
      · exact ⟨by simp, by simp, by simpa using hev⟩
      · cases e with
        | data b bs =>
            rcases Nat.lt_or_ge k (bs.length + 1) with hlt | hle
            · rw [advance_split b ev hzero hlt]
              refine ⟨(drop_stream_split b bs ev hlt.le).symm, ?_, delivers_pushBack hev.tail⟩
              rw [waits_pushBack, waits, List.map_map]
              refine List.map_congr_left fun p _ => ?_
              simp only [Function.comp_apply, List.length_drop, List.length_cons]
              omega
            · obtain ⟨n, rfl⟩ := Nat.exists_eq_add_of_le' hle
              rw [length_stream_data] at hk
              obtain ⟨hs, hw, hd⟩ := ih (k := n) hev.tail (by omega) fun p hp =>
                Nat.le_of_add_le_add_right (hquiet _ (List.mem_map.mpr ⟨p, hp, rfl⟩))
              rw [advance_chunk]
              refine ⟨hs.trans (drop_stream_chunk b bs ev n).symm, ?_, hd⟩
              rw [waits, hw, List.map_map]
              exact List.map_congr_left fun p _ => Nat.add_assoc p n _
        | again => exact absurd (hquiet 0 (by simp [waits])) (by omega)
        | fail => exact absurd rfl (hev .fail (by simp)).1
        | eof => exact absurd rfl (hev .eof (by simp)).2

end

section

variable {ev : List Event} (hev : Delivers ev) {bytes rest : List UInt8} {k n : ℕ}
  (hlen : bytes.length = k + n) (hstream : stream ev = bytes ++ rest)
  (hquiet : ∀ p ∈ waits ev, bytes.length ≤ p)

include hev hlen hstream hquiet

/-- The first one of two parts leaves enough for the second one. -/
lemma advance_first_spec :
    Leaves ev k (advance ev k) ∧ n ≤ (stream (advance ev k)).length ∧
      ∀ p ∈ waits (advance ev k), n ≤ p := by
  have hle : k + n ≤ (stream ev).length := by
    rw [hstream, List.length_append]
    omega
  have hfirst : Leaves ev k (advance ev k) :=
    advance_spec hev (by omega) fun p hp => (hlen ▸ Nat.le_add_right k n).trans (hquiet p hp)
  exact ⟨hfirst, hfirst.le_length hle, hfirst.quiet fun p hp => hlen ▸ hquiet p hp⟩

/-- Two parts, one after the other. -/
lemma advance_two_spec :
    stream (advance (advance ev k) n) = rest ∧ Leaves ev (k + n) (advance (advance ev k) n) := by
  obtain ⟨hfirst, hle, hquiet'⟩ := advance_first_spec hev hlen hstream hquiet
  have hboth := hfirst.trans (advance_spec hfirst.delivers hle hquiet')
  refine ⟨?_, hboth⟩
  rw [hboth.stream_eq, hstream, List.drop_left' hlen]

end

/-- The events after the leading ones without data. -/
def awaitData (ev : List Event) : List Event := ev.dropWhile (· = .again)

@[simp] lemma stream_awaitData (ev : List Event) : stream (awaitData ev) = stream ev := by
  induction ev with
  | nil => rfl
  | cons e ev ih =>
      by_cases he : e = .again
      · subst he
        simpa [awaitData, stream] using ih
      · simp [awaitData, he]

/-- After a wait for data, the reads that find none are those that do not come at
once. -/
lemma mem_waits_awaitData {ev : List Event} (h : Delivers ev) (p : ℕ) :
    p ∈ waits (awaitData ev) ↔ p ∈ waits ev ∧ p ≠ 0 := by
  induction ev with
  | nil => simp [awaitData, waits]
  | cons e ev ih =>
      cases e with
      | again =>
          have hih := ih h.tail
          simp only [awaitData, List.dropWhile_cons_of_pos, decide_true, waits,
            List.mem_cons] at hih ⊢
          rw [hih]
          constructor
          · exact fun hp => ⟨.inr hp.1, hp.2⟩
          · rintro ⟨rfl | hp, hne⟩
            · exact absurd rfl hne
            · exact ⟨hp, hne⟩
      | data b bs =>
          have hsame : awaitData (.data b bs :: ev) = .data b bs :: ev := rfl
          rw [hsame]
          refine ⟨fun hp => ⟨hp, ?_⟩, fun hp => hp.1⟩
          obtain ⟨q, -, rfl⟩ := List.mem_map.mp hp
          omega
      | fail => exact absurd rfl (h .fail (by simp)).1
      | eof => exact absurd rfl (h .eof (by simp)).2

/-- A reader that waits for data finds none when nothing more comes. -/
lemma awaitData_eq_nil {ev : List Event} (h : Delivers ev) (hs : stream ev = []) :
    awaitData ev = [] := by
  induction ev with
  | nil => rfl
  | cons e ev ih =>
      cases e with
      | data b bs => simp [stream] at hs
      | again => simpa [awaitData] using ih h.tail hs
      | fail => exact absurd rfl (h .fail (by simp)).1
      | eof => exact absurd rfl (h .eof (by simp)).2

lemma delivers_awaitData {ev : List Event} (h : Delivers ev) : Delivers (awaitData ev) :=
  fun e he => h e ((List.dropWhile_suffix _).subset he)

lemma weight_awaitData_le (ev : List Event) : weight (awaitData ev) ≤ weight ev := by
  induction ev with
  | nil => simp [awaitData, weight]
  | cons e ev ih =>
      by_cases he : e = .again
      · subst he
        have hskip : awaitData (.again :: ev) = awaitData ev := by simp [awaitData]
        simp only [hskip, weight]
        omega
      · simp [awaitData, he]

end Socket
