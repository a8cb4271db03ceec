/-
The sending side of clients and servers.

A message is built in a buffer of fixed size, and only then it is checked whether it
is too long to be sent.

* `Client.prepareToSend`, `Client.sendMsg`: the request of a client;
* `AsyncServer.writeResponseToClient`: the answer of a server;
* `responseHeader`, `read_response`: the header of an answer, and the message that it makes;
* `writesBelow_prepareToSend_iff`: how far the buffer of a request is written;
* `sendMsg_prepareToSend`, `writeResponseToClient_eq`: what is sent if it fits.
-/
import FtThesis.Transport.Client

namespace FtThesis

open Memory Decimals

namespace Client

/-- `SERVER_BUFFER_SIZE`: the size of the buffer of a request. -/
def serverBufferSize : ℕ := serverBufferSizeWithoutPrefix + 7 + 1

/-- `prepareToSend`, with the `serializeObject` of the client: the buffer, and the length
of the message. -/
def prepareToSend (serializeObject : Mem → Mem × ℕ) (command : ℕ) (serialized : Mem) : Mem × ℕ :=
  let (payload, len) := serializeObject fun q => serialized (8 + q)
  let serialized := fun q => if q < 8 then serialized q else payload (q - 8)
  let numAsStr := (intToStringDigits len 7).take 7
  let commandAsStr := (intToStringDigits command 1).take 1
  (memcpy serialized 0 (numAsStr ++ commandAsStr), len + 8)

/-- `sendMsg`: the bytes that are sent. -/
def sendMsg (serialized : Mem) (length : ℕ) : List UInt8 :=
  if serverBufferSize < length then [] else read serialized 0 length

section

variable (serializeObject : Mem → Mem × ℕ) (command : ℕ)

lemma length_header (len : ℕ) :
    ((intToStringDigits len 7).take 7 ++ (intToStringDigits command 1).take 1).length ≤ 8 := by
  rw [List.length_append, List.length_take, List.length_take]
  omega

/-- Behind the header stands what the client has written. -/
lemma prepareToSend_payload (serialized : Mem) (q : ℕ) :
    (prepareToSend serializeObject command serialized).1 (8 + q)
      = (serializeObject fun q => serialized (8 + q)).1 q := by
  have hlen := length_header command (serializeObject fun q => serialized (8 + q)).2
  simp only [prepareToSend]
  rw [memcpy_of_lt (.inr (by omega)), if_neg (by omega), Nat.add_sub_cancel_left]

/-- The buffer is written as far as the client writes, with the header in front. -/
lemma writesBelow_prepareToSend_iff (n : ℕ) :
    WritesBelow (fun m => (prepareToSend serializeObject command m).1) (8 + n)
      ↔ WritesBelow (fun m => (serializeObject m).1) n := by
  constructor
  · intro h m q hq
    -- the buffer in which the payload stands in `m`
    have hpayload := prepareToSend_payload serializeObject command (fun r => m (r - 8)) q
    have hsame := h (fun r => m (r - 8)) (8 + q) (by omega)
    simp only [hpayload, Nat.add_sub_cancel_left] at hsame
    exact hsame
  · intro h m q hq
    obtain ⟨q, rfl⟩ := Nat.exists_eq_add_of_le (show 8 ≤ q by omega)
    exact (prepareToSend_payload serializeObject command m q).trans (h _ q (by omega))

variable {command}

/-- A payload that fits is sent as it is. -/
lemma sendMsg_prepareToSend (hcommand : command ≤ 9) (serialized : Mem) {payload : Mem} {len : ℕ}
    (hser : (serializeObject fun q => serialized (8 + q)) = (payload, len))
    (hlen : len ≤ serverBufferSizeWithoutPrefix) :
    sendMsg (prepareToSend serializeObject command serialized).1
        (prepareToSend serializeObject command serialized).2
      = message command (read payload 0 len) := by
  have hlt : len < 10 ^ 7 := lt_of_le_of_lt hlen (by decide)
  have hheader : (intToStringDigits len 7).take 7 ++ (intToStringDigits command 1).take 1
      = padDigits 7 len ++ padDigits 1 command := by
    rw [intToStringDigits_eq (by decide) hlt, intToStringDigits_eq (by decide) (by omega),
      List.take_of_length_le (by simp), List.take_of_length_le (by simp)]
  have hdigits : read (prepareToSend serializeObject command serialized).1 0 8
      = padDigits 7 len ++ padDigits 1 command := by
    simp only [prepareToSend, hser, hheader]
    rw [read_memcpy _ _ (by simp), List.drop_zero, List.take_of_length_le (by simp)]
  have hpayload : read (prepareToSend serializeObject command serialized).1 8 len
      = read payload 0 len := by
    refine List.map_congr_left fun i _ => ?_
    rw [prepareToSend_payload, hser, Nat.zero_add]
  have hlength : (prepareToSend serializeObject command serialized).2 = 8 + len := by
    simp only [prepareToSend, hser]
    exact Nat.add_comm len 8
  rw [hlength, sendMsg, if_neg (by simp only [serverBufferSize]; omega), read_add, hdigits,
    Nat.zero_add, hpayload, message_eq hcommand (by simpa using hlt), length_read,
    List.append_assoc]

end

end Client

/-- The header that `writeResponseToClient` puts in front of a return value. -/
def responseHeader (succeed : Bool) (retValLen : ℕ) : List UInt8 :=
  (intToStringDigits retValLen 7).take 7 ++ [if succeed then 49 else 48]

/-- The header and the return value behind it are a message. -/
lemma read_response (succeed : Bool) (retVal : Mem) {retValLen : ℕ} (hlt : retValLen < 10 ^ 7) :
    read (memcpy retVal 0 (responseHeader succeed retValLen)) 0 (retValLen + 8)
      = message (if succeed then 1 else 0) (read retVal 8 retValLen) := by
  have hstatus : [if succeed then 49 else 48] = padDigits 1 (if succeed then 1 else 0) := by
    cases succeed <;> rfl
  have hheader : responseHeader succeed retValLen
      = padDigits 7 retValLen ++ padDigits 1 (if succeed then 1 else 0) := by
    rw [responseHeader, intToStringDigits_eq (by decide) hlt, List.take_of_length_le (by simp),
      hstatus]
  have hdigits : read (memcpy retVal 0 (padDigits 7 retValLen ++
        padDigits 1 (if succeed then 1 else 0))) 0 8
      = padDigits 7 retValLen ++ padDigits 1 (if succeed then 1 else 0) := by
    rw [read_memcpy _ _ (by simp), List.drop_zero, List.take_of_length_le (by simp)]
  have hpayload : read (memcpy retVal 0 (padDigits 7 retValLen ++
        padDigits 1 (if succeed then 1 else 0))) 8 retValLen = read retVal 8 retValLen :=
    List.map_congr_left fun i _ => memcpy_of_lt (.inr (by simp))
  rw [hheader, Nat.add_comm, read_add, hdigits, Nat.zero_add, hpayload,
    message_eq (by split <;> omega) (by simpa using hlt), length_read, List.append_assoc]

namespace AsyncServer

/-- `writeResponseToClient`: the bytes that are sent, with the return value in `retVal`. -/
def writeResponseToClient (succeed : Bool) (retVal : Mem) (retValLen : ℕ) : List UInt8 :=
  if Client.maxRetValLength + 7 + 1 < retValLen + 8 then []
  else message (if succeed then 1 else 0) (read retVal 0 retValLen)

/-- A return value that fits is sent as an answer. -/
lemma writeResponseToClient_eq (succeed : Bool) (retVal : Mem) {retValLen : ℕ}
    (h : retValLen ≤ Client.maxRetValLength) :
    writeResponseToClient succeed retVal retValLen
      = Client.Answer.bytes ⟨succeed, read retVal 0 retValLen, by simpa using h⟩ := by
  rw [writeResponseToClient, if_neg (by omega)]
  rfl

end AsyncServer

end FtThesis
