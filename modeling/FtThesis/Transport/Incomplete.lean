/-
Requests that are cut off by the end of the connection.

A connection ends before the last byte of a request has come.  The read loops say so with `-1`; of
the two loops for a request, the first one passes this on as the length of the payload, the second
one does not.

* `stateAfter`, `NotExecuted`: nothing is handed over, and the state stays as it is;
* `receive_of_ends`, `receive_of_not_ends`: what the loop of the asynchronous server leaves of a
  connection that ends;
* `SyncServer.receive_of_ends`: the same for the synchronous one;
* `notExecuted_iff`: such a request is not executed exactly when it is cut off within its header,
  and, at the asynchronous server, no read before the end finds no data or fails;
* `not_notExecuted`: a request without its last byte is executed.
-/
import FtThesis.Transport.SyncServer

namespace FtThesis

open Memory Socket

/-- The state of a server after `handleClientRequest`, which hands a request over to
`deserializeClientRequest` and `processRequest`. -/
def stateAfter {σ : Type} (processRequest : σ → AsyncServer.Dispatch → σ) (s : σ)
    (handed : Option AsyncServer.Dispatch) : σ :=
  handed.elim s (processRequest s)

/-- No request is executed. -/
structure NotExecuted (handed : Option AsyncServer.Dispatch) : Prop where
  notCalled : handed = none
  unchanged : ∀ {σ : Type} (processRequest : σ → AsyncServer.Dispatch → σ) (s : σ),
    stateAfter processRequest s handed = s

lemma notExecuted_iff_eq_none {handed : Option AsyncServer.Dispatch} :
    NotExecuted handed ↔ handed = none := by
  constructor
  · exact fun h => h.notCalled
  · rintro rfl
    exact ⟨rfl, fun _ _ => rfl⟩

namespace AsyncServer

/-! ### The asynchronous server -/

/-- When the connection ends before all bytes have come, the client is removed. -/
lemma receive_of_ends {ev closing : List Event} (hev : OnlyData ev) (hends : Ends closing)
    (msg : Mem) {total maximal : ℕ} (hlt : total + (stream ev).length < maximal) :
    (receiveMsgFromClient (ev ++ closing) msg total maximal).totalReceivedBytes = none := by
  induction ev generalizing msg total with
  | nil =>
      have hneg : ¬ maximal ≤ total := by omega
      cases hends with
      | eof ev => simp [receiveMsgFromClient, hneg]
      | @fail e h ev =>
          cases e with
          | data b bs => exact absurd rfl (h b bs)
          | _ => simp [receiveMsgFromClient, hneg]
  | cons e ev ih =>
      obtain ⟨⟨b, bs, rfl⟩, hrest⟩ := List.forall_mem_cons.mp hev
      rw [length_stream_data] at hlt
      rw [List.cons_append, receiveMsgFromClient, if_neg (by omega), if_pos (by omega)]
      exact ih hrest _ (by omega)

/-- Else the loop is left with some of the bytes, and the client is not removed. -/
lemma receive_of_not_ends {ev : List Event} (hev : Lasts ev) (closing : List Event) (msg : Mem)
    {total maximal : ℕ} (hle : total ≤ maximal)
    (h : OnlyData ev → maximal ≤ total + (stream ev).length) :
    (receiveMsgFromClient (ev ++ closing) msg total maximal).totalReceivedBytes.isSome = true ∧
      ∃ q ≤ (stream ev).length, total + q ≤ maximal ∧
        (receiveMsgFromClient (ev ++ closing) msg total maximal).msg
          = memcpy msg total ((stream ev).take q) := by
  rcases hle.eq_or_lt with rfl | hlt
  · rw [readsData_receiveMsgFromClient.done _ _ le_rfl]
    exact ⟨rfl, 0, Nat.zero_le _, by omega, by simp⟩
  have hneg : ¬ maximal ≤ total := Nat.not_le.mpr hlt
  induction hev generalizing msg total with
  | nil =>
      have hall := h (by simp [OnlyData])
      simp only [stream, List.length_nil] at hall
      omega
  | @data b bs ev hev ih =>
      rw [List.cons_append]
      rcases Nat.lt_or_ge (maximal - total) (bs.length + 1) with hgt | hchunk
      · have htake := take_stream_split b bs ev hgt.le
        refine ⟨?_, maximal - total, ?_, by omega, ?_⟩
        · simp only [receiveMsgFromClient, if_neg hneg, if_neg (Nat.not_le.mpr hgt),
            Option.isSome_some]
        · rw [length_stream_data]
          omega
        · simp only [receiveMsgFromClient, if_neg hneg, if_neg (Nat.not_le.mpr hgt), htake]
      · simp only [receiveMsgFromClient, if_neg hneg, if_pos hchunk]
        have hrest : OnlyData ev → maximal ≤ total + (bs.length + 1) + (stream ev).length := by
          intro hdata
          have hall := h (List.forall_mem_cons.mpr ⟨⟨b, bs, rfl⟩, hdata⟩)
          rw [length_stream_data] at hall
          omega
        rcases hchunk.eq_or_lt with heq | hmore
        · rw [readsData_receiveMsgFromClient.done _ _ (by omega)]
          refine ⟨rfl, 0 + (bs.length + 1), ?_, by omega, ?_⟩
          · rw [length_stream_data]
            omega
          · rw [take_stream_chunk, List.take_zero, List.append_nil]
        · obtain ⟨hsome, q, hq, hqle, hmsg⟩ := ih (memcpy msg total (b :: bs)) (by omega) hrest
            (by omega) (by omega)
          refine ⟨hsome, q + (bs.length + 1), ?_, by omega, ?_⟩
          · rw [length_stream_data]
            omega
          · rw [hmsg, take_stream_chunk, ← memcpy_append, List.length_cons]
  | again hev ih =>
      rw [List.cons_append]
      simp only [receiveMsgFromClient, if_neg hneg]
      exact ⟨rfl, 0, Nat.zero_le _, by omega, by simp⟩
  | @retry b bs ev hev ih =>
      simp only [List.cons_append, receiveMsgFromClient, if_neg hneg]
      -- the bytes of the second read are in the buffer, but are not counted
      have hfail : stream (.fail :: .data b bs :: ev) = stream (.data b bs :: ev) := rfl
      refine ⟨rfl, min (maximal - total) (bs.length + 1), ?_, by omega, ?_⟩
      · rw [hfail, length_stream_data]
        omega
      · have htake := take_stream_split b bs ev (min_le_right (maximal - total) (bs.length + 1))
        have hmin : (b :: bs).take (min (maximal - total) (bs.length + 1))
            = (b :: bs).take (maximal - total) := by
          rw [← List.take_take, List.take_of_length_le (i := bs.length + 1) (by simp)]
        rw [hfail, htake, hmin]

section

variable {before closing : List Event} {r : Request} {p : ℕ}

/-- A request that is cut off within its header is dropped. -/
lemma handed_eq_none (hev : OnlyData before) (hends : Ends closing)
    (hlt : (stream before).length < 8) (msg : Mem) :
    (handleClientRequest msg (before ++ closing)).1 = none := by
  have hremoved := receive_of_ends hev hends msg (show 0 + (stream before).length < 8 by omega)
  simp only [handleClientRequest, readCommonClientRequest, hremoved, Option.map_none]

/-- Any other one is handed over, for some contents of the buffer. -/
lemma exists_handed (hev : Lasts before) (hstream : stream before = r.bytes.take p)
    (closing : List Event) (h : OnlyData before → 8 ≤ (stream before).length) :
    ∃ msg, (handleClientRequest msg (before ++ closing)).1.isSome = true := by
  have hlen := r.length_bytes
  obtain ⟨hsome, q, hq, hqle, hmsg⟩ := receive_of_not_ends hev closing (garbledHeader r)
    (Nat.zero_le 8) (fun hdata => (h hdata).trans (Nat.le_add_left _ _))
  have htake : (stream before).take q = r.bytes.take q := by
    rw [hstream] at hq ⊢
    rw [List.length_take] at hq
    rw [List.take_take, min_eq_left (by omega)]
  have hlength : ∃ l, checkLength (read (memcpy (garbledHeader r) 0 (r.bytes.take q)) 0 7) 1
      = some l := by
    rcases Nat.lt_or_ge q 8 with hcut | hwhole
    · exact length_of_cut_header r hcut
    · refine ⟨_, (checkLength_header r _ (r.bytes.take q) ?_ ?_).1⟩
      · rw [List.length_take]
        omega
      · rw [List.take_take, min_eq_left hwhole]
  obtain ⟨l, hl⟩ := hlength
  obtain ⟨total, htotal⟩ := Option.isSome_iff_exists.mp hsome
  refine ⟨garbledHeader r, ?_⟩
  simp only [handleClientRequest, readCommonClientRequest, htotal, hmsg, htake, hl,
    Option.map_some, Option.isSome_some]

/-- The contents of the buffer decide nothing only if the first read loop is cut off. -/
lemma notExecuted_iff_cut (hp : p < r.bytes.length) (hstream : stream before = r.bytes.take p)
    (hev : Lasts before) (hends : Ends closing) :
    (∀ msg, NotExecuted (handleClientRequest msg (before ++ closing)).1) ↔
      p < 8 ∧ OnlyData before := by
  have hlength : (stream before).length = p := by
    rw [hstream, List.length_take]
    omega
  constructor
  · intro hnot
    by_contra hcond
    obtain ⟨msg, hsome⟩ := exists_handed hev hstream closing fun hdata => by
      by_contra hlt
      exact hcond ⟨by omega, hdata⟩
    rw [(hnot msg).notCalled] at hsome
    exact absurd hsome (by simp)
  · rintro ⟨hlt, hdata⟩ msg
    exact notExecuted_iff_eq_none.mpr (handed_eq_none hdata hends (by omega) msg)

end

end AsyncServer

namespace SyncServer

/-! ### The synchronous server -/

section

variable {ev closing : List Event}

/-- A second read is a read like the first one. -/
lemma receive_retrying (b : UInt8) (bs : List UInt8) (ev : List Event) (msg : Mem)
    {total maximal : ℕ} (hlt : ¬ maximal ≤ total) :
    receiveMsgFromClient (.fail :: .data b bs :: ev) false msg total maximal
      = receiveMsgFromClient (.data b bs :: ev) false msg total maximal := by
  rw [receiveMsgFromClient.eq_def]
  simp only [if_neg hlt, receiveMsgFromClient, Bool.false_eq_true, if_false]

/-- When the connection ends before all bytes have come, the client is removed. -/
lemma receive_of_ends (hev : Lasts ev) (hblocking : .again ∉ ev) (hends : Ends closing) (msg : Mem)
    {total maximal : ℕ} (hlt : total + (stream ev).length < maximal) :
    (receiveMsgFromClient (ev ++ closing) false msg total maximal).ending = .removed := by
  have hneg : ¬ maximal ≤ total := by omega
  induction hev generalizing msg total with
  | nil =>
      cases hends with
      | eof ev => simp [receiveMsgFromClient, hneg]
      | @fail e h ev =>
          cases e with
          | data b bs => exact absurd rfl (h b bs)
          | _ => simp [receiveMsgFromClient, hneg]
  | @data b bs ev hev ih =>
      rw [length_stream_data] at hlt
      rw [List.cons_append, receiveMsgFromClient, if_neg hneg, if_pos (by omega)]
      exact ih (List.not_mem_of_not_mem_cons hblocking) _ (by omega) (by omega)
  | again hev ih => exact absurd List.mem_cons_self hblocking
  | retry hev ih =>
      rw [List.cons_append, List.cons_append, receive_retrying _ _ _ _ hneg]
      exact ih (List.not_mem_of_not_mem_cons hblocking) msg hlt hneg

/-- Else the loop reads its bytes and leaves what is behind them. -/
lemma receive_of_not_ends (hev : Lasts ev) (hblocking : .again ∉ ev) (closing : List Event)
    (msg : Mem) {total maximal : ℕ} (hle : total ≤ maximal)
    (hall : maximal ≤ total + (stream ev).length) :
    ∃ ev', Lasts ev' ∧ .again ∉ ev' ∧ stream ev' = (stream ev).drop (maximal - total) ∧
      receiveMsgFromClient (ev ++ closing) false msg total maximal
        = ⟨.total maximal, memcpy msg total ((stream ev).take (maximal - total)),
            ev' ++ closing⟩ := by
  rcases hle.eq_or_lt with rfl | hlt
  · refine ⟨ev, hev, hblocking, by simp, ?_⟩
    rw [readsData_receiveMsgFromClient.done _ _ le_rfl]
    simp
  have hneg : ¬ maximal ≤ total := Nat.not_le.mpr hlt
  induction hev generalizing msg total with
  | nil =>
      simp only [stream, List.length_nil] at hall
      omega
  | @data b bs ev hev ih =>
      have hblocking' := List.not_mem_of_not_mem_cons hblocking
      rw [length_stream_data] at hall
      rw [List.cons_append]
      rcases Nat.lt_or_ge (maximal - total) (bs.length + 1) with hgt | hchunk
      · refine ⟨pushBack ((b :: bs).drop (maximal - total)) ev, hev.pushBack, ?_,
          (drop_stream_split b bs ev hgt.le).symm, ?_⟩
        · cases (b :: bs).drop (maximal - total) with
          | nil => exact hblocking'
          | cons b bs => simpa [pushBack] using hblocking'
        · rw [readsData_receiveMsgFromClient.split b bs _ _ hlt hgt, pushBack_append,
            take_stream_split b bs ev hgt.le]
      · obtain ⟨k, hk⟩ := Nat.exists_eq_add_of_le' hchunk
        rw [hk, take_stream_chunk, drop_stream_chunk,
          readsData_receiveMsgFromClient.chunk b bs _ _ hlt hchunk]
        rcases Nat.eq_zero_or_pos k with rfl | hpos
        · refine ⟨ev, hev, hblocking', rfl, ?_⟩
          rw [readsData_receiveMsgFromClient.done _ _ (by omega), List.take_zero, List.append_nil]
          congr 2
          omega
        · have hle' : total + (bs.length + 1) ≤ maximal := by omega
          obtain ⟨ev', hev', hagain, hdrop, hreceive⟩ :=
            ih hblocking' (memcpy msg total (b :: bs)) hle' (by omega) (by omega) (by omega)
          have hsub : maximal - (total + (bs.length + 1)) = k := by omega
          rw [hsub] at hdrop hreceive
          refine ⟨ev', hev', hagain, hdrop, ?_⟩
          rw [hreceive, ← memcpy_append, List.length_cons]
  | again hev ih => exact absurd List.mem_cons_self hblocking
  | retry hev ih =>
      rw [List.cons_append, List.cons_append, receive_retrying _ _ _ _ hneg]
      exact ih (List.not_mem_of_not_mem_cons hblocking) msg hle hall hlt hneg

end

section

variable {before closing : List Event} {r : Request} {p : ℕ}

/-- A request that is cut off within its payload is handed over. -/
lemma handed_isSome (hp : p < r.bytes.length) (hstream : stream before = r.bytes.take p)
    (hev : Lasts before) (hblocking : .again ∉ before) (hends : Ends closing) (hle : 8 ≤ p)
    (msg : Mem) : (handleClientRequest msg (before ++ closing)).1.isSome = true := by
  have hlen := r.length_bytes
  have hlength : (stream before).length = p := by
    rw [hstream, List.length_take]
    omega
  obtain ⟨ev', hev', hagain, hdrop, hfirst⟩ := receive_of_not_ends hev hblocking closing msg
    (Nat.zero_le 8) (by omega)
  have htake : (stream before).take (8 - 0) = r.bytes.take 8 := by
    rw [hstream, List.take_take, min_eq_left (by omega)]
  obtain ⟨hmsgLen, -⟩ := AsyncServer.checkLength_header r msg (r.bytes.take 8)
    (by rw [List.length_take]; omega) (List.take_take.trans (by rw [min_self]))
  have hshort : 8 + (stream ev').length < r.payload.length + 8 := by
    rw [hdrop, List.length_drop]
    omega
  have hsecond := receive_of_ends hev' hagain hends (memcpy msg 0 (r.bytes.take 8)) hshort
  rw [htake] at hfirst
  simp [handleClientRequest, readCommonClientRequest, hfirst, hmsgLen, hsecond]

/-- The first read loop is cut off, or the request is handed over. -/
lemma notExecuted_iff_cut (hp : p < r.bytes.length) (hstream : stream before = r.bytes.take p)
    (hev : Lasts before) (hblocking : .again ∉ before) (hends : Ends closing) (msg : Mem) :
    NotExecuted (handleClientRequest msg (before ++ closing)).1 ↔ p < 8 := by
  have hlength : (stream before).length = p := by
    rw [hstream, List.length_take]
    omega
  rw [notExecuted_iff_eq_none]
  constructor
  · intro hnone
    by_contra hle
    have hsome := handed_isSome hp hstream hev hblocking hends (Nat.not_lt.mp hle) msg
    rw [hnone] at hsome
    exact absurd hsome (by simp)
  · intro hlt
    have hremoved := receive_of_ends hev hblocking hends msg
      (show 0 + (stream before).length < 8 by omega)
    simp [handleClientRequest, readCommonClientRequest, hremoved]

end

end SyncServer

/-! ### Both servers -/

/-- **Incomplete requests.**  A connection ends before the last byte of a request has come, by the
peer or by a failure.  Whatever the buffer contained, the asynchronous server does not execute the
request exactly when it is cut off within its header and all bytes of this came without an
interruption; the synchronous one exactly when it is cut off within its header. -/
theorem notExecuted_iff {before closing : List Event} {r : Request} {p : ℕ}
    (hp : p < r.bytes.length) (hstream : stream before = r.bytes.take p) (hev : Lasts before)
    (hends : Ends closing) :
    ((∀ msg, NotExecuted (AsyncServer.handleClientRequest msg (before ++ closing)).1) ↔
        p < 8 ∧ OnlyData before) ∧
      (.again ∉ before →
        ((∀ msg, NotExecuted (SyncServer.handleClientRequest msg (before ++ closing)).1) ↔
          p < 8)) := by
  refine ⟨AsyncServer.notExecuted_iff_cut hp hstream hev hends, fun hblocking => ?_⟩
  have hcut := SyncServer.notExecuted_iff_cut hp hstream hev hblocking hends
  exact ⟨fun hnot => (hcut fun _ => 0).mp (hnot _), fun hlt msg => (hcut msg).mpr hlt⟩

/-- A request with two bytes of payload. -/
def shortRequest : Request := ⟨2, [7, 8], by decide, by decide, by decide⟩

/-- The short request, of which three bytes of the header come in two parts. -/
theorem notExecuted_iff_short :
    (∀ msg, NotExecuted (AsyncServer.handleClientRequest msg
        ([.data 48 [], .data 48 [48]] ++ [.eof])).1) ∧
      ∀ msg, NotExecuted (SyncServer.handleClientRequest msg
        ([.data 48 [], .data 48 [48]] ++ [.eof])).1 := by
  let before : List Event := [.data 48 [], .data 48 [48]]
  have hp : 3 < shortRequest.bytes.length := by decide
  have hstream : stream before = shortRequest.bytes.take 3 := by decide
  obtain ⟨hasync, hsync⟩ :=
    notExecuted_iff hp hstream (.data 48 [] (.data 48 [48] .nil)) (.eof [])
  have hdata : OnlyData before := by simp [OnlyData, before]
  exact ⟨hasync.mpr ⟨by decide, hdata⟩, (hsync (by decide)).mpr (by decide)⟩

/-- The short request without its last byte, in one chunk. -/
def cutRequest : List Event := [.data 48 (shortRequest.bytes.tail.take 8)]

/-- The peer closes the connection before the last byte of a request: each of the servers hands
over what stands in its buffer. -/
theorem not_notExecuted :
    (¬ ∀ (before closing : List Event) (r : Request) (p : ℕ), p < r.bytes.length →
      stream before = r.bytes.take p → OnlyData before → Ends closing →
      ∀ msg, NotExecuted (AsyncServer.handleClientRequest msg (before ++ closing)).1) ∧
    ¬ ∀ (before closing : List Event) (r : Request) (p : ℕ), p < r.bytes.length →
      stream before = r.bytes.take p → OnlyData before → Ends closing →
      ∀ msg, NotExecuted (SyncServer.handleClientRequest msg (before ++ closing)).1 := by
  have hdata : OnlyData cutRequest := by simp [OnlyData, cutRequest]
  have hlasts : Lasts cutRequest := .data 48 _ .nil
  have hp : 9 < shortRequest.bytes.length := by decide
  have hstream : stream cutRequest = shortRequest.bytes.take 9 := by decide
  constructor
  · intro h
    have hnot := h cutRequest [.eof] shortRequest 9 hp hstream hdata (.eof [])
    have hcut := (AsyncServer.notExecuted_iff_cut hp hstream hlasts (.eof [])).mp hnot
    exact absurd hcut.1 (by decide)
  · intro h
    have hnot := h cutRequest [.eof] shortRequest 9 hp hstream hdata (.eof []) fun _ => 0
    have hcut := (SyncServer.notExecuted_iff_cut hp hstream hlasts (by simp [cutRequest])
      (.eof []) _).mp hnot
    exact absurd hcut (by decide)

end FtThesis
