/-
Loops that read the data of a socket into a buffer.

* `OnlyData`: no read fails, finds nothing, or comes to the end of the stream;
* `Lasts`, `Ends`: the events before a connection ends, and those with which it does;
* `ReadsData`: what a read loop does with a chunk that it asks for, and with one that is
  longer;
* `ReadsData.of_quiet`: such a loop copies the next bytes of the stream, as many as it asks
  for, and leaves the others;
* `ReadsData.two_loops`: two of them, for a header and for what is behind it.
-/
import FtThesis.Library.Memory
import FtThesis.Library.Sockets

namespace Socket

open Memory

/-- The events of a blocking socket with a connection that lasts: chunks of data. -/
def OnlyData (ev : List Event) : Prop := ∀ e ∈ ev, ∃ b bs, e = .data b bs

lemma OnlyData.delivers {ev : List Event} (h : OnlyData ev) : Delivers ev := by
  intro e he
  obtain ⟨b, bs, rfl⟩ := h e he
  simp

lemma OnlyData.waits_eq_nil {ev : List Event} (h : OnlyData ev) : waits ev = [] := by
  induction ev with
  | nil => rfl
  | cons e ev ih =>
      obtain ⟨hfirst, hrest⟩ := List.forall_mem_cons.mp h
      obtain ⟨b, bs, rfl⟩ := hfirst
      rw [waits, ih hrest, List.map_nil]

lemma onlyData_pushBack {bs : List UInt8} {ev : List Event} (h : OnlyData ev) :
    OnlyData (pushBack bs ev) := by
  cases bs with
  | nil => exact h
  | cons b bs => exact List.forall_mem_cons.mpr ⟨⟨b, bs, rfl⟩, h⟩

/-- What can come while a connection lasts: data, also after a read that fails once, and reads that
find none. -/
inductive Lasts : List Event → Prop
  | nil : Lasts []
  | data (b : UInt8) (bs : List UInt8) {ev : List Event} (h : Lasts ev) :
      Lasts (.data b bs :: ev)
  | again {ev : List Event} (h : Lasts ev) : Lasts (.again :: ev)
  | retry {b : UInt8} {bs : List UInt8} {ev : List Event} (h : Lasts (.data b bs :: ev)) :
      Lasts (.fail :: .data b bs :: ev)

/-- The connection is closed by the peer, or a read fails and so does the next one. -/
inductive Ends : List Event → Prop
  | eof (ev : List Event) : Ends (.eof :: ev)
  | fail {e : Event} (h : ∀ b bs, e ≠ .data b bs) (ev : List Event) : Ends (.fail :: e :: ev)

lemma Lasts.pushBack {bs : List UInt8} {ev : List Event} (h : Lasts ev) :
    Lasts (pushBack bs ev) := by
  cases bs with
  | nil => exact h
  | cons b bs => exact .data b bs h

/-- A loop that reads data to address `total`, up to `maximal` bytes, and returns `ret` of
the events that are left, the buffer and the number of bytes. -/
structure ReadsData {R : Type*} (loop : List Event → Mem → ℕ → ℕ → R)
    (ret : List Event → Mem → ℕ → R) : Prop where
  done : ∀ ev m {total maximal}, maximal ≤ total → loop ev m total maximal = ret ev m total
  chunk : ∀ b bs ev m {total maximal}, total < maximal → bs.length + 1 ≤ maximal - total →
    loop (.data b bs :: ev) m total maximal
      = loop ev (memcpy m total (b :: bs)) (total + (bs.length + 1)) maximal
  split : ∀ b bs ev m {total maximal}, total < maximal → maximal - total < bs.length + 1 →
    loop (.data b bs :: ev) m total maximal
      = ret (pushBack ((b :: bs).drop (maximal - total)) ev)
          (memcpy m total ((b :: bs).take (maximal - total))) maximal

/-- If no read without data comes before the `k`-th byte, the next `k` bytes are read. -/
theorem ReadsData.of_quiet {R : Type*} {loop : List Event → Mem → ℕ → ℕ → R}
    {ret : List Event → Mem → ℕ → R} (hloop : ReadsData loop ret) {ev : List Event}
    (hev : Delivers ev) {k : ℕ} (hk : k ≤ (stream ev).length) (hquiet : ∀ p ∈ waits ev, k ≤ p)
    (m : Mem) (total : ℕ) :
    loop ev m total (total + k)
      = ret (advance ev k) (memcpy m total ((stream ev).take k)) (total + k) := by
  induction ev generalizing k m total with
  | nil =>
      obtain rfl : k = 0 := by simpa [stream] using hk
      rw [Nat.add_zero, hloop.done _ _ le_rfl, List.take_zero, memcpy_nil, advance_zero]
  | cons e ev ih =>
      rcases eq_or_ne k 0 with rfl | hzero
      · rw [Nat.add_zero, hloop.done _ _ le_rfl, List.take_zero, memcpy_nil, advance_zero]
      cases e with
      | data b bs =>
          rcases Nat.lt_or_ge k (bs.length + 1) with hlt | hle
          · have hmax : total + k - total = k := Nat.add_sub_cancel_left total k
            rw [hloop.split _ _ _ _ (by omega) (by omega), hmax, take_stream_split b bs ev hlt.le,
              advance_split b ev hzero hlt]
          · obtain ⟨n, rfl⟩ := Nat.exists_eq_add_of_le' hle
            rw [length_stream_data] at hk
            have hrest := ih hev.tail (k := n) (by omega)
              (fun p hp => Nat.le_of_add_le_add_right (hquiet _ (List.mem_map.mpr ⟨p, hp, rfl⟩)))
              (memcpy m total (b :: bs)) (total + (bs.length + 1))
            have hsum : total + (bs.length + 1) + n = total + (n + (bs.length + 1)) := by omega
            rw [hsum] at hrest
            rw [hloop.chunk _ _ _ _ (by omega) (by omega), hrest, advance_chunk,
              take_stream_chunk, ← memcpy_append]
            rfl
      | again => exact absurd (hquiet 0 (by simp [waits])) (by omega)
      | fail => exact absurd rfl (hev .fail (by simp)).1
      | eof => exact absurd rfl (hev .eof (by simp)).2

/-- Two loops, one after the other, for the two parts of what comes first. -/
theorem ReadsData.two_loops {R : Type*} {loop : List Event → Mem → ℕ → ℕ → R}
    {ret : List Event → Mem → ℕ → R} (hloop : ReadsData loop ret) {ev : List Event}
    (hev : Delivers ev) {bytes rest : List UInt8} {k n : ℕ} (hlen : bytes.length = k + n)
    (hstream : stream ev = bytes ++ rest) (hquiet : ∀ p ∈ waits ev, bytes.length ≤ p) (m : Mem) :
    loop ev m 0 k = ret (advance ev k) (memcpy m 0 (bytes.take k)) k ∧
      loop (advance ev k) (memcpy m 0 (bytes.take k)) k (k + n)
        = ret (advance (advance ev k) n) (memcpy m 0 bytes) (k + n) := by
  obtain ⟨hleaves, hle, hquiet'⟩ := advance_first_spec hev hlen hstream hquiet
  have hfirst := hloop.of_quiet hev (k := k) (by rw [hstream, List.length_append]; omega)
    (fun p hp => (hlen ▸ Nat.le_add_right k n).trans (hquiet p hp)) m 0
  have hsecond := hloop.of_quiet hleaves.delivers hle hquiet' (memcpy m 0 (bytes.take k)) k
  have htake : (stream ev).take k = bytes.take k := by
    rw [hstream, List.take_append_of_le_length (by omega)]
  have hafter : (stream (advance ev k)).take n = bytes.drop k := by
    rw [hleaves.stream_eq, hstream, List.drop_append_of_le_length (by omega),
      List.take_left' (by rw [List.length_drop]; omega)]
  have hcopy := memcpy_take_drop m 0 bytes (n := k) (by omega)
  rw [Nat.zero_add, htake] at hfirst
  rw [Nat.zero_add] at hcopy
  rw [hafter, hcopy] at hsecond
  exact ⟨hfirst, hsecond⟩

end Socket
