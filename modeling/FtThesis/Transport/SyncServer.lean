/-
The synchronous server, and its framing.

Its sockets block: a read waits until there is data.

* `receiveMsgFromClient`, `readCommonClientRequest`, `handleClientRequest`: the request of a
  client;
* `sendMsg`, `writeResponseToClient`: the answer to it;
* `readsData_receiveMsgFromClient`: the read loop of the server takes data as that of the client
  does;
* `readCommonClientRequest_of_onlyData`: a request that comes in any chunks;
* `blockingFraming`: both directions, with the senders.
-/
import FtThesis.Library.ReadLoops
import FtThesis.Library.SendLoops
import FtThesis.Transport.Framing
import FtThesis.Transport.Sending

namespace FtThesis

open Memory Socket Decimals

namespace SyncServer

/-! ### Reading a request -/

/-- How a read loop ends: with the number of received bytes, with `-1` when the client is
removed, or not, because a read waits for data. -/
inductive Ending
  | total (totalReceivedBytes : ℕ)
  | removed
  | waiting
deriving DecidableEq

/-- What `receiveMsgFromClient` leaves: how it ended, the buffer, and the events that are
left. -/
structure Received where
  ending : Ending
  msg : Mem
  events : List Event

/-- `receiveMsgFromClient`: reads until `maximalReceivedBytes` bytes are there, the next one
to address `totalReceivedBytes`.  A read that fails is tried one more time; `retrying` says
that the next read is such a second one.  When there are no more events, a read waits. -/
def receiveMsgFromClient : List Event → (retrying : Bool) → (msg : Mem) →
    (totalReceivedBytes maximalReceivedBytes : ℕ) → Received
  | [], _, msg, total, maximal =>
      if maximal ≤ total then ⟨.total total, msg, []⟩ else ⟨.waiting, msg, []⟩
  | .data b bs :: ev, _, msg, total, maximal =>
      if maximal ≤ total then ⟨.total total, msg, .data b bs :: ev⟩
      else if bs.length + 1 ≤ maximal - total then
        receiveMsgFromClient ev false (memcpy msg total (b :: bs)) (total + (bs.length + 1))
          maximal
      else
        ⟨.total maximal, memcpy msg total ((b :: bs).take (maximal - total)),
          pushBack ((b :: bs).drop (maximal - total)) ev⟩
  | .eof :: ev, _, msg, total, maximal =>
      if maximal ≤ total then ⟨.total total, msg, .eof :: ev⟩ else ⟨.removed, msg, ev⟩
  | e :: ev, retrying, msg, total, maximal =>
      if maximal ≤ total then ⟨.total total, msg, e :: ev⟩
      else if retrying then ⟨.removed, msg, ev⟩
      else receiveMsgFromClient ev true msg total maximal

/-- What `readCommonClientRequest` leaves: the length and the command, with `none` for `-1`,
the buffer, how the last read ended, and the events that are left. -/
structure CommonRequest where
  msgLen : Option ℕ
  command : Option ℕ
  msg : Mem
  ending : Ending
  events : List Event

/-- `readCommonClientRequest`. -/
def readCommonClientRequest (ev : List Event) (msg : Mem) : CommonRequest :=
  let r := receiveMsgFromClient ev false msg 0 8
  match r.ending with
  | .total total =>
      let msgLen := checkLength (read r.msg 0 7) 1
      let command := checkLength (read r.msg 7 1) 0
      -- without a length, `-1 + 7 + 1` bytes are read
      let r := receiveMsgFromClient r.events false r.msg total (msgLen.elim 7 (· + 8))
      ⟨msgLen, command, r.msg, r.ending, r.events⟩
  | ending => ⟨none, none, r.msg, ending, r.events⟩

/-- `handleClientRequest`, with the contents `msg` of the new buffer: what it hands over, how its
last read ended, and the events that are left.  As long as a read waits, nothing is handed
over. -/
def handleClientRequest (msg : Mem) (ev : List Event) :
    Option AsyncServer.Dispatch × Ending × List Event :=
  let r := readCommonClientRequest ev msg
  let handed :=
    if r.ending = .waiting then none
    else r.msgLen.map fun msgLen => (r.command, read r.msg 8 msgLen)
  (handed, r.ending, r.events)

/-! ### Writing an answer -/

/-- `sendMsg`: how it ends, and the bytes that are sent.  When a send returns `0`, it returns
false; when a second one does, the process ends. -/
def sendMsg (rs : List SendResult) (retVal : Mem) (length : ℕ) : SendEnding × List UInt8 :=
  if Client.maxRetValLength + 7 + 1 < length then (.returned false, [])
  else
    sendLoop (fun retrying => if retrying then .exited else .returned false) rs false
      (read retVal 0 length)

/-- `writeResponseToClient`: how its `sendMsg` ends, and the bytes that are sent.  The return
value stands in `retVal` behind the place for the header. -/
def writeResponseToClient (rs : List SendResult) (succeed : Bool) (retVal : Mem)
    (retValLen : ℕ) : SendEnding × List UInt8 :=
  let numAsStr := (intToStringDigits retValLen 7).take 7
  let status := if succeed then 49 else 48
  sendMsg rs (memcpy retVal 0 (numAsStr ++ [status])) (retValLen + 8)

/-- An answer that fits is sent exactly when the sends carry it and its header. -/
lemma writeResponseToClient_succeeds_iff (rs : List SendResult) (succeed : Bool) (retVal : Mem)
    {retValLen : ℕ} (h : retValLen ≤ Client.maxRetValLength) :
    (writeResponseToClient rs succeed retVal retValLen).1 = .returned true ↔
      Carries rs (retValLen + 8) := by
  rw [writeResponseToClient, sendMsg, if_neg (by omega)]
  refine (sendLoop_iff _ (fun retrying => ?_) rs _).1.trans (by rw [length_read])
  cases retrying <;> simp

/-- What is sent of an answer that fits is a message. -/
lemma writeResponseToClient_eq {rs : List SendResult} (succeed : Bool) (retVal : Mem)
    {retValLen : ℕ} (h : retValLen ≤ Client.maxRetValLength)
    (hsent : (writeResponseToClient rs succeed retVal retValLen).1 = .returned true) :
    (writeResponseToClient rs succeed retVal retValLen).2
      = Client.Answer.bytes ⟨succeed, read retVal 8 retValLen, by simpa using h⟩ := by
  have hread := read_response succeed retVal (lt_of_le_of_lt h (by decide))
  rw [responseHeader] at hread
  rw [writeResponseToClient, sendMsg, if_neg (by omega)] at hsent ⊢
  rw [hread] at hsent ⊢
  exact (written_eq_iff _ (fun retrying => by cases retrying <;> simp) _ _ _).mpr hsent

/-! ### The read loops on data -/

lemma readsData_receiveMsgFromClient :
    ReadsData (fun ev => receiveMsgFromClient ev false)
      fun ev m total => ⟨.total total, m, ev⟩ where
  done ev m total maximal h := by
    cases ev with
    | nil => rw [receiveMsgFromClient, if_pos h]
    | cons e ev => cases e <;> simp [receiveMsgFromClient, h]
  chunk b bs ev m total maximal hlt hle := by
    simp only [receiveMsgFromClient, if_neg (Nat.not_le.mpr hlt), if_pos hle]
  split b bs ev m total maximal hlt hgt := by
    simp only [receiveMsgFromClient, if_neg (Nat.not_le.mpr hlt), if_neg (Nat.not_le.mpr hgt)]

section

variable {ev : List Event} (hev : OnlyData ev)

include hev

/-- A request that comes in any chunks is read as it was written, and nothing behind it. -/
lemma readCommonClientRequest_of_onlyData {r : Request} {rest : List UInt8}
    (hstream : stream ev = r.bytes ++ rest) (msg : Mem) :
    ∃ ev', stream ev' = rest ∧ readCommonClientRequest ev msg = ⟨some r.payload.length,
      some r.command, memcpy msg 0 r.bytes, .total (r.payload.length + 8), ev'⟩ := by
  have hquiet : ∀ p ∈ waits ev, r.bytes.length ≤ p := by simp [hev.waits_eq_nil]
  obtain ⟨hfirst, hsecond⟩ :=
    readsData_receiveMsgFromClient.two_loops hev.delivers r.length_bytes hstream hquiet msg
  obtain ⟨hrest, -⟩ := advance_two_spec hev.delivers r.length_bytes hstream hquiet
  obtain ⟨hmsgLen, hcommand⟩ := AsyncServer.checkLength_header r msg (r.bytes.take 8)
    (by rw [List.length_take, r.length_bytes]; omega) (List.take_take.trans (by rw [min_self]))
  rw [Nat.add_comm] at hsecond
  refine ⟨_, hrest, ?_⟩
  simp only [readCommonClientRequest, hfirst, hmsgLen, hcommand, Option.elim_some, hsecond]

end

end SyncServer

/-! ### Both directions -/

open SyncServer in
/-- **Blocking framing.**  A request that a client prepares and sends is read by the server
with its length, its command and its payload, in whatever chunks the data comes, and what
follows it is left unread.  So is an answer that the server writes, by the client, with its
length, its status and its payload. -/
theorem blockingFraming :
    (∀ (serializeObject : Mem → Mem × ℕ) (command : ℕ) (serialized msg : Mem) (ev : List Event)
        (rest : List UInt8),
      let request := Client.prepareToSend serializeObject command serialized
      let payload := (serializeObject fun q => serialized (8 + q)).1
      let len := (serializeObject fun q => serialized (8 + q)).2
      let r := readCommonClientRequest ev msg
      command ≤ 9 → 0 < len → len ≤ serverBufferSizeWithoutPrefix → OnlyData ev →
        stream ev = Client.sendMsg request.1 request.2 ++ rest →
          r.msgLen = some len ∧ r.command = some command ∧ read r.msg 8 len = read payload 0 len ∧
            r.ending = .total (len + 8) ∧ stream r.events = rest) ∧
    ∀ (rs : List SendResult) (succeed : Bool) (retVal msg : Mem) (retValLen : ℕ)
        (ev : List Event) (rest : List UInt8),
      let answer := writeResponseToClient rs succeed retVal retValLen
      let r := Client.readCommonServerResponse ev msg
      retValLen ≤ Client.maxRetValLength → answer.1 = .returned true → OnlyData ev →
        stream ev = answer.2 ++ rest →
          r.msgLen = some retValLen ∧ r.status = some (if succeed then 1 else 0) ∧
            read r.msg 8 retValLen = read retVal 8 retValLen ∧ r.exited = false ∧
              stream r.events = rest := by
  constructor
  · intro serializeObject command serialized msg ev rest request payload len r hcommand hpos hle
      hev hstream
    rw [Client.sendMsg_prepareToSend serializeObject hcommand serialized rfl hle] at hstream
    have hlen : (read payload 0 len).length = len := length_read payload 0 len
    let sent : Request := ⟨command, read payload 0 len, hcommand, hlen.symm ▸ hpos, hlen.symm ▸ hle⟩
    obtain ⟨ev', hrest, hr⟩ := readCommonClientRequest_of_onlyData (r := sent) hev hstream msg
    have hread : read (memcpy msg 0 sent.bytes) 8 (read payload 0 len).length
        = read payload 0 len :=
      read_payload sent.command_le sent.payload_lt msg
    rw [hlen] at hread
    simp only [r, hr]
    exact ⟨congrArg some hlen, rfl, hread, congrArg (fun n => Ending.total (n + 8)) hlen, hrest⟩
  · intro rs succeed retVal msg retValLen ev rest answer r hle hsent hev hstream
    have hlen : (read retVal 8 retValLen).length = retValLen := length_read retVal 8 retValLen
    let sent : Client.Answer := ⟨succeed, read retVal 8 retValLen, hlen.symm ▸ hle⟩
    rw [writeResponseToClient_eq succeed retVal hle hsent] at hstream
    obtain ⟨ev', hrest, hr⟩ := Client.readCommonServerResponse_of_quiet (a := sent) hev.delivers
      hev.waits_eq_nil hstream msg
    have hread : read (memcpy msg 0 sent.bytes) 8 (read retVal 8 retValLen).length
        = read retVal 8 retValLen := read_payload sent.status_le sent.retVal_lt msg
    rw [hlen] at hread
    simp only [r, hr]
    exact ⟨congrArg some hlen, rfl, hread, trivial, hrest⟩

open SyncServer in
/-- A request that comes in two chunks, with a byte of the next one behind it, and an answer
that is written with three sends, the second of which fails. -/
theorem blockingFraming_chunks :
    let request := Client.prepareToSend (fun _ => (fun _ => 7, 3)) 2 fun _ => 0
    let sent := Client.sendMsg request.1 request.2
    let answer := writeResponseToClient [.sent 4, .failed, .sent 5] true (fun _ => 9) 3
    (readCommonClientRequest (pushBack (sent.take 5) (pushBack (sent.drop 5) [.data 1 []]))
        fun _ => 0).msgLen = some 3 ∧
      (Client.readCommonServerResponse (pushBack answer.2 []) fun _ => 0).msgLen = some 3 := by
  intro request sent answer
  have hnext : OnlyData [.data 1 []] := by simp [OnlyData]
  have hsent : answer.1 = .returned true :=
    (writeResponseToClient_succeeds_iff _ true _ (by decide)).mpr
      ⟨[.sent 4, .failed, .sent 5], List.prefix_rfl, by decide, by decide,
        by simp [NotBothFailed]⟩
  have hstream : stream (pushBack (sent.take 5) (pushBack (sent.drop 5) [.data 1 []]))
      = sent ++ [1] := by
    rw [stream_pushBack, stream_pushBack, ← List.append_assoc, List.take_append_drop]
    rfl
  have hstream' : stream (pushBack answer.2 []) = answer.2 ++ [] := stream_pushBack _ _
  constructor
  · exact (blockingFraming.1 (fun _ => (fun _ => 7, 3)) 2 (fun _ => 0) (fun _ => 0) _ [1]
      (by decide) (by decide) (by decide) (onlyData_pushBack (onlyData_pushBack hnext)) hstream).1
  · exact (blockingFraming.2 [.sent 4, .failed, .sent 5] true (fun _ => 9) (fun _ => 0) 3 _ []
      (by decide) hsent (onlyData_pushBack (by simp [OnlyData])) hstream').1

end FtThesis
