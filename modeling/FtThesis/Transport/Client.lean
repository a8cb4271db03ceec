/-
The reading side of the client.

* `receiveMsgFromServer`: the read loop, by the results of the reads;
* `readCommonServerResponse`, `sendMsgAndWait`: one answer, read into a new buffer;
* `Answer`: the answers of a server;
* `receiveMsgFromServer_takes`: the loop copies what it takes from the stream;
* `sendMsgAndWait_of_prefix`: a call that reads nothing but its own answer delivers
  this answer, or returns false;
* `readCommonServerResponse_of_quiet`, `sendMsgAndWait_of_quiet`: an answer that comes in time is
  read as it was written, and the call delivers it.
-/
import FtThesis.Library.ReadLoops
import FtThesis.Transport.Message

namespace FtThesis

open Memory Socket

namespace Client

/-! ### Reading -/

/-- How a read loop ends: with the number of received bytes, with `-1`, or with the
process (`exit(1)`). -/
inductive Ending
  | total (totalReceivedBytes : ℕ)
  | failed
  | exited
deriving DecidableEq

/-- What `receiveMsgFromServer` leaves: how it ended, the buffer, and the events that
are left. -/
structure Received where
  ending : Ending
  msg : Mem
  events : List Event

/-- `receiveMsgFromServer`: reads until `maximalReceivedBytes` bytes are there, the
next one to address `totalReceivedBytes`.  A read that fails, or finds no data within
the receive timeout, is tried one more time; `retrying` says that the next read is
such a second one.  When there are no more events, both reads run into the timeout. -/
def receiveMsgFromServer : List Event → (retrying : Bool) → (msg : Mem) →
    (totalReceivedBytes maximalReceivedBytes : ℕ) → Received
  | [], _, msg, total, maximal =>
      if maximal ≤ total then ⟨.total total, msg, []⟩ else ⟨.failed, msg, []⟩
  | .data b bs :: ev, _, msg, total, maximal =>
      if maximal ≤ total then ⟨.total total, msg, .data b bs :: ev⟩
      else if bs.length + 1 ≤ maximal - total then
        receiveMsgFromServer ev false (memcpy msg total (b :: bs)) (total + (bs.length + 1))
          maximal
      else
        ⟨.total maximal, memcpy msg total ((b :: bs).take (maximal - total)),
          pushBack ((b :: bs).drop (maximal - total)) ev⟩
  | .eof :: ev, _, msg, total, maximal =>
      if maximal ≤ total then ⟨.total total, msg, .eof :: ev⟩ else ⟨.exited, msg, ev⟩
  | e :: ev, retrying, msg, total, maximal =>
      if maximal ≤ total then ⟨.total total, msg, e :: ev⟩
      else if retrying then ⟨.failed, msg, ev⟩
      else receiveMsgFromServer ev true msg total maximal

/-- What `readCommonServerResponse` leaves: the length and the status, with `none`
for `-1`, the buffer, whether the process ended, and the events that are left. -/
structure CommonResponse where
  msgLen : Option ℕ
  status : Option ℕ
  msg : Mem
  exited : Bool
  events : List Event

/-- `readCommonServerResponse`. -/
def readCommonServerResponse (ev : List Event) (msg : Mem) : CommonResponse :=
  let r := receiveMsgFromServer ev false msg 0 8
  match r.ending with
  | .exited => ⟨none, none, r.msg, true, r.events⟩
  | .failed => ⟨none, none, r.msg, false, r.events⟩
  | .total total =>
      let msgLen := checkLength (read r.msg 0 7) 0
      let status := checkLength (read r.msg 7 1) 0
      -- without a length, `-1 + 7 + 1` bytes are read
      let r := receiveMsgFromServer r.events false r.msg total (msgLen.elim 7 (· + 8))
      match r.ending with
      | .exited => ⟨msgLen, status, r.msg, true, r.events⟩
      | .failed => ⟨msgLen, none, r.msg, false, r.events⟩
      | .total _ => ⟨msgLen, status, r.msg, false, r.events⟩

/-- What is handed to `handleReturnValue`: the status and the return value. -/
abbrev Handed := ℕ × List UInt8

/-- What a call of `sendMsgAndWait` comes to: it returns false; or it returns true,
after a call of `handleReturnValue` or without one; or the process ended. -/
inductive Outcome
  | returnedFalse
  | returnedTrue (handed : Option Handed)
  | exited
deriving DecidableEq

/-- `sendMsgAndWait` after the request is sent, with the contents `retVal` of the new
buffer, and the events that are left. -/
def sendMsgAndWait (retVal : Mem) (ev : List Event) : Outcome × List Event :=
  let r := readCommonServerResponse ev retVal
  let outcome :=
    if r.exited then .exited
    else
      match r.status with
      | none | some 0 => .returnedFalse
      | some status =>
          .returnedTrue <|
            match r.msgLen with
            | none | some 0 => none
            | some retValLen => some (status, read r.msg 8 retValLen)
  (outcome, r.events)

/-! ### Answers -/

/-- `MAX_RET_VAL_LENGTH`. -/
def maxRetValLength : ℕ := 300000

/-- An answer of a server: whether the request succeeded, and the return value, for
which there is room in the buffer of the client. -/
structure Answer where
  succeed : Bool
  retVal : List UInt8
  retVal_le : retVal.length ≤ maxRetValLength

namespace Answer

/-- The digit of the status. -/
def status (a : Answer) : ℕ := if a.succeed then 1 else 0

/-- `writeResponseToClient`: the bytes of an answer. -/
def bytes (a : Answer) : List UInt8 := message a.status a.retVal

/-- What is to be handed over: the status and the return value, unless that is empty. -/
def handed (a : Answer) : Option Handed :=
  if a.retVal = [] then none else some (a.status, a.retVal)

lemma status_le (a : Answer) : a.status ≤ 9 := by
  rw [status]
  split <;> omega

lemma retVal_lt (a : Answer) : a.retVal.length < 10 ^ 7 :=
  lt_of_le_of_lt a.retVal_le (by decide)

lemma length_bytes (a : Answer) : a.bytes.length = 8 + a.retVal.length :=
  length_message a.status_le a.retVal_lt

/-- The header of an answer, in a buffer that has its first eight bytes. -/
lemma checkLength_header (a : Answer) (msg : Mem) :
    checkLength (read (memcpy msg 0 (a.bytes.take 8)) 0 7) 0 = some a.retVal.length ∧
      checkLength (read (memcpy msg 0 (a.bytes.take 8)) 7 1) 0 = some a.status := by
  have hlen : (a.bytes.take 8).length = 8 := by
    rw [List.length_take, a.length_bytes]
    omega
  rw [read_memcpy msg _ (by omega), read_memcpy msg _ (by omega), List.drop_zero, List.take_take,
    List.drop_take, List.take_take]
  exact ⟨checkLength_length a.status_le a.retVal_lt (Nat.zero_le _),
    checkLength_code a.status_le a.retVal_lt⟩

end Answer

/-! ### What the loop does -/

lemma eof_notMem_pushBack {bs : List UInt8} {ev : List Event} (h : .eof ∉ ev) :
    .eof ∉ pushBack bs ev := by
  cases bs with
  | nil => exact h
  | cons b bs => simpa [pushBack] using h

/-- What a read loop that has to read from `total` up to `maximal` does with the events
`ev`: the next `n` bytes of their stream are copied, and the rest is left; these are all
the bytes that are asked for, or the loop failed before. -/
structure Takes (ev : List Event) (msg : Mem) (total maximal n : ℕ) (r : Received) : Prop where
  le : n ≤ (stream ev).length
  msg_eq : r.msg = memcpy msg total ((stream ev).take n)
  stream_eq : stream r.events = (stream ev).drop n
  eof_notMem : .eof ∉ r.events
  ending : r.ending = .total maximal ∧ total + n = maximal ∨
    r.ending = .failed ∧ total + n < maximal

namespace Takes

variable {ev : List Event} {msg : Mem} {total maximal n : ℕ} {r : Received}

/-- Nothing is taken. -/
lemma zero (hev : .eof ∉ ev) : Takes ev msg maximal maximal 0 ⟨.total maximal, msg, ev⟩ :=
  ⟨Nat.zero_le _, by simp [memcpy_nil], rfl, hev, .inl ⟨rfl, rfl⟩⟩

/-- Nothing comes in time. -/
lemma failed (hev : .eof ∉ ev) (hlt : total < maximal) :
    Takes ev msg total maximal 0 ⟨.failed, msg, ev⟩ :=
  ⟨Nat.zero_le _, by simp [memcpy_nil], rfl, hev, .inr ⟨rfl, hlt⟩⟩

/-- The last bytes are the first ones of a chunk. -/
lemma split {b : UInt8} {bs : List UInt8} (hev : .eof ∉ ev) {k : ℕ} (hk : k < bs.length + 1) :
    Takes (.data b bs :: ev) msg total (total + k) k
      ⟨.total (total + k), memcpy msg total ((b :: bs).take k),
        pushBack ((b :: bs).drop k) ev⟩ := by
  refine ⟨?_, ?_, ?_, ?_, .inl ⟨rfl, rfl⟩⟩
  · rw [stream, List.length_append, List.length_cons]
    omega
  · rw [take_stream_split b bs ev hk.le]
  · rw [drop_stream_split b bs ev hk.le]
  · exact eof_notMem_pushBack hev

/-- A whole chunk is read before. -/
lemma chunk {b : UInt8} {bs : List UInt8}
    (h : Takes ev (memcpy msg total (b :: bs)) (total + (bs.length + 1)) maximal n r) :
    Takes (.data b bs :: ev) msg total maximal (n + (bs.length + 1)) r := by
  have hsum : total + (n + (bs.length + 1)) = total + (bs.length + 1) + n := by omega
  refine ⟨?_, ?_, ?_, h.eof_notMem, hsum ▸ h.ending⟩
  · have hle := h.le
    rw [length_stream_data]
    omega
  · rw [h.msg_eq, take_stream_chunk, ← memcpy_append, List.length_cons]
  · rw [h.stream_eq, drop_stream_chunk]

/-- An event without data comes before. -/
lemma skip {e : Event} (h : Takes ev msg total maximal n r) (he : stream (e :: ev) = stream ev) :
    Takes (e :: ev) msg total maximal n r :=
  ⟨he ▸ h.le, he ▸ h.msg_eq, he ▸ h.stream_eq, h.eof_notMem, h.ending⟩

end Takes

/-- As long as the server does not end the connection, a read loop takes the next bytes
of the stream. -/
lemma receiveMsgFromServer_takes {ev : List Event} (hev : .eof ∉ ev) (retrying : Bool) (msg : Mem)
    (total : ℕ) {maximal : ℕ} (hle : total ≤ maximal) :
    ∃ n, Takes ev msg total maximal n (receiveMsgFromServer ev retrying msg total maximal) := by
  induction ev generalizing retrying msg total with
  | nil =>
      refine ⟨0, ?_⟩
      rcases hle.eq_or_lt with rfl | hlt
      · simpa only [receiveMsgFromServer, if_pos le_rfl] using Takes.zero hev
      · simpa only [receiveMsgFromServer, if_neg (Nat.not_le.mpr hlt)] using Takes.failed hev hlt
  | cons e ev ih =>
      have hev' : .eof ∉ ev := fun h => hev (List.mem_cons_of_mem _ h)
      rcases hle.eq_or_lt with rfl | hlt
      · refine ⟨0, ?_⟩
        cases e <;> simpa only [receiveMsgFromServer, if_pos le_rfl] using Takes.zero hev
      have hneg := Nat.not_le.mpr hlt
      cases e with
      | data b bs =>
          simp only [receiveMsgFromServer, if_neg hneg]
          split_ifs with hchunk
          · obtain ⟨n, hn⟩ := ih hev' false (memcpy msg total (b :: bs))
              (total + (bs.length + 1)) (by omega)
            exact ⟨_, hn.chunk⟩
          · obtain ⟨k, rfl⟩ := Nat.exists_eq_add_of_le hle
            refine ⟨k, ?_⟩
            rw [Nat.add_sub_cancel_left] at hchunk ⊢
            exact .split hev' (Nat.not_le.mp hchunk)
      | eof => exact absurd List.mem_cons_self hev
      | _ =>
          -- the first of two reads without success changes nothing
          cases retrying with
          | false =>
              obtain ⟨n, hn⟩ := ih hev' true msg total hle
              refine ⟨n, ?_⟩
              simpa [receiveMsgFromServer, hneg] using hn.skip rfl
          | true =>
              refine ⟨0, ?_⟩
              simpa [receiveMsgFromServer, hneg] using (Takes.failed hev' hlt).skip rfl

/-! ### A call that reads its own answer -/

section

variable {a : Answer} {ev : List Event} (hev : .eof ∉ ev) (hstream : stream ev <+: a.bytes)

include hev hstream

/-- If nothing but the answer to the request comes, the whole answer is read, or the
status is `-1`. -/
lemma readCommonServerResponse_of_prefix (msg : Mem) :
    ((readCommonServerResponse ev msg).exited = false ∧
        (readCommonServerResponse ev msg).status = none) ∨
      stream ev = a.bytes ∧ ∃ ev', stream ev' = [] ∧
        readCommonServerResponse ev msg
          = ⟨some a.retVal.length, some a.status, memcpy msg 0 a.bytes, false, ev'⟩ := by
  obtain ⟨n, hfirst⟩ := receiveMsgFromServer_takes hev false msg 0 (Nat.zero_le 8)
  rcases hfirst.ending with ⟨hend, hn⟩ | ⟨hend, -⟩
  · obtain rfl : n = 8 := by omega
    have htake : (stream ev).take 8 = a.bytes.take 8 := by
      obtain ⟨rest, hrest⟩ := hstream
      rw [← hrest, List.take_append_of_le_length hfirst.le]
    have hmsg := hfirst.msg_eq
    rw [htake] at hmsg
    obtain ⟨hlen, hstatus⟩ := a.checkLength_header msg
    rw [← hmsg] at hlen hstatus
    obtain ⟨m, hsecond⟩ := receiveMsgFromServer_takes hfirst.eof_notMem false
      (receiveMsgFromServer ev false msg 0 8).msg 8 (Nat.le_add_left 8 a.retVal.length)
    rcases hsecond.ending with ⟨hend', hm⟩ | ⟨hend', -⟩
    · right
      have hwhole : stream ev = a.bytes := by
        have hle₁ := hfirst.le
        have hle₂ := hsecond.le
        rw [hfirst.stream_eq, List.length_drop] at hle₂
        exact hstream.eq_of_length_le (by rw [a.length_bytes]; omega)
      have hrest : (stream (receiveMsgFromServer ev false msg 0 8).events) = a.bytes.drop 8 := by
        rw [hfirst.stream_eq, hwhole]
      have hdrop : (a.bytes.drop 8).length ≤ m := by
        rw [List.length_drop, a.length_bytes]
        omega
      refine ⟨hwhole, _, hsecond.stream_eq.trans ?_, ?_⟩
      · rw [hrest, List.drop_of_length_le hdrop]
      · have hcopy := hsecond.msg_eq
        rw [hrest, List.take_of_length_le hdrop] at hcopy
        rw [← memcpy_take_drop msg 0 a.bytes (n := 8) (by rw [a.length_bytes]; omega),
          Nat.zero_add, ← hmsg, ← hcopy]
        simp only [readCommonServerResponse, hend, hlen, hstatus, Option.elim_some, hend']
    · left
      simp [readCommonServerResponse, hend, hlen, hend']
  · left
    simp [readCommonServerResponse, hend]

/-- If nothing but the answer to its own request comes, a call either delivers it and
reads it to its end, or it returns false. -/
lemma sendMsgAndWait_of_prefix (retVal : Mem) :
    (sendMsgAndWait retVal ev).1 = .returnedFalse ∨
      (sendMsgAndWait retVal ev).1 = .returnedTrue a.handed ∧ a.succeed = true ∧
        stream ev = a.bytes ∧ stream (sendMsgAndWait retVal ev).2 = [] := by
  rcases readCommonServerResponse_of_prefix hev hstream retVal with
    ⟨hexit, hstatus⟩ | ⟨hwhole, ev', hempty, hr⟩
  · left
    simp [sendMsgAndWait, hexit, hstatus]
  · have hread : read (memcpy retVal 0 a.bytes) 8 a.retVal.length = a.retVal := by
      rw [read_memcpy _ _ a.length_bytes.ge, Answer.bytes, drop_message a.status_le a.retVal_lt,
        List.take_length]
    cases hsucceed : a.succeed with
    | false =>
        left
        simp [sendMsgAndWait, hr, Answer.status, hsucceed]
    | true =>
        right
        refine ⟨?_, rfl, hwhole, ?_⟩
        · cases hretVal : a.retVal with
          | nil => simp [sendMsgAndWait, hr, Answer.status, Answer.handed, hsucceed, hretVal]
          | cons b bs =>
              rw [hretVal, List.length_cons] at hread
              simp [sendMsgAndWait, hr, Answer.status, Answer.handed, hsucceed, hretVal, hread]
        · simp [sendMsgAndWait, hr, hempty]

end

/-! ### An answer that comes without an interruption -/

lemma readsData_receiveMsgFromServer :
    ReadsData (fun ev => receiveMsgFromServer ev false)
      fun ev m total => ⟨.total total, m, ev⟩ where
  done ev m total maximal h := by
    cases ev with
    | nil => rw [receiveMsgFromServer, if_pos h]
    | cons e ev => cases e <;> simp [receiveMsgFromServer, h]
  chunk b bs ev m total maximal hlt hle := by
    simp only [receiveMsgFromServer, if_neg (Nat.not_le.mpr hlt), if_pos hle]
  split b bs ev m total maximal hlt hgt := by
    simp only [receiveMsgFromServer, if_neg (Nat.not_le.mpr hlt), if_neg (Nat.not_le.mpr hgt)]

section

variable {a : Answer} {ev : List Event} {rest : List UInt8} (hev : Delivers ev)
  (hquiet : waits ev = [])

include hev hquiet

/-- An answer that comes in any chunks, before a read runs into the timeout, is read as it was
written, and nothing behind it. -/
lemma readCommonServerResponse_of_quiet (hstream : stream ev = a.bytes ++ rest) (msg : Mem) :
    ∃ ev', stream ev' = rest ∧ readCommonServerResponse ev msg
      = ⟨some a.retVal.length, some a.status, memcpy msg 0 a.bytes, false, ev'⟩ := by
  have hquiet' : ∀ p ∈ waits ev, a.bytes.length ≤ p := by simp [hquiet]
  obtain ⟨hfirst, hsecond⟩ :=
    readsData_receiveMsgFromServer.two_loops hev a.length_bytes hstream hquiet' msg
  obtain ⟨hrest, -⟩ := advance_two_spec hev a.length_bytes hstream hquiet'
  obtain ⟨hmsgLen, hstatus⟩ := a.checkLength_header msg
  rw [Nat.add_comm] at hsecond
  refine ⟨_, hrest, ?_⟩
  simp only [readCommonServerResponse, hfirst, hmsgLen, hstatus, Option.elim_some, hsecond]

/-- An answer that comes in any chunks, before a read runs into the timeout, is what the
call comes to. -/
lemma sendMsgAndWait_of_quiet (hstream : stream ev = a.bytes) (hsucceed : a.succeed = true)
    (retVal : Mem) : (sendMsgAndWait retVal ev).1 = .returnedTrue a.handed := by
  have heof : .eof ∉ ev := fun h => (hev _ h).2 rfl
  have hprefix : stream ev <+: a.bytes := by rw [hstream]
  rcases sendMsgAndWait_of_prefix heof hprefix retVal with hfalse | ⟨htrue, -⟩
  · obtain ⟨ev', -, hread⟩ := readCommonServerResponse_of_quiet hev hquiet
      (hstream.trans (List.append_nil _).symm) retVal
    simp [sendMsgAndWait, hread, Answer.status, hsucceed] at hfalse
  · exact htrue

end

end Client

end FtThesis
