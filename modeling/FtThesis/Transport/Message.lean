/-
The messages between clients and servers.

A message is a length of seven digits, one digit for the command or the status,
and a payload.

* `message`: what `Client::prepareToSend` and `Server::writeResponseToClient` put
  in front of a payload;
* `checkLength`: the value of a field of digits;
* `checkLength_length`, `checkLength_code`, `read_payload`: the parts of a message read back;
* `Request`: the requests that a client may send.
-/
import FtThesis.Library.Decimals
import FtThesis.Library.Memory

namespace FtThesis

open Decimals Memory

/-- A message with the given command or status. -/
def message (code : ℕ) (payload : List UInt8) : List UInt8 :=
  intToStringDigits payload.length 7 ++ intToStringDigits code 1 ++ payload

/-- `checkLength`, where `none` is for `-1`. -/
def checkLength (num : List UInt8) (minimalExpectedValue : ℕ) : Option ℕ :=
  if num.all isDigit then
    if atoi num < minimalExpectedValue then none else some (atoi num)
  else none

lemma checkLength_padDigits {n v minimal : ℕ} (hv : v < 10 ^ n) (hmin : minimal ≤ v) :
    checkLength (padDigits n v) minimal = some v := by
  have hall : (padDigits n v).all isDigit = true :=
    List.all_eq_true.mpr fun _ hb => isDigit_of_mem_padDigits hb
  rw [checkLength, if_pos hall, atoi_padDigits hv, if_neg (by omega)]

section

variable {code : ℕ} {payload : List UInt8}

lemma message_eq (hcode : code ≤ 9) (hlen : payload.length < 10 ^ 7) :
    message code payload = padDigits 7 payload.length ++ (padDigits 1 code ++ payload) := by
  rw [message, intToStringDigits_eq (by decide) hlen, intToStringDigits_eq (by decide) (by omega),
    List.append_assoc]

lemma length_message (hcode : code ≤ 9) (hlen : payload.length < 10 ^ 7) :
    (message code payload).length = 8 + payload.length := by
  rw [message_eq hcode hlen]
  simp
  omega

/-- The length field. -/
lemma checkLength_length (hcode : code ≤ 9) (hlen : payload.length < 10 ^ 7) {minimal : ℕ}
    (hmin : minimal ≤ payload.length) :
    checkLength ((message code payload).take 7) minimal = some payload.length := by
  rw [message_eq hcode hlen, List.take_left' (length_padDigits 7 _)]
  exact checkLength_padDigits hlen hmin

/-- The field of the command or the status. -/
lemma checkLength_code (hcode : code ≤ 9) (hlen : payload.length < 10 ^ 7) :
    checkLength (((message code payload).drop 7).take 1) 0 = some code := by
  rw [message_eq hcode hlen, List.drop_left' (length_padDigits 7 _),
    List.take_left' (length_padDigits 1 _)]
  exact checkLength_padDigits (by omega) (Nat.zero_le _)

/-- The payload. -/
lemma drop_message (hcode : code ≤ 9) (hlen : payload.length < 10 ^ 7) :
    (message code payload).drop 8 = payload := by
  rw [message_eq hcode hlen, ← List.append_assoc]
  exact List.drop_left' (by simp)

/-- The payload, in a buffer with the message at its beginning. -/
lemma read_payload (hcode : code ≤ 9) (hlen : payload.length < 10 ^ 7) (msg : Mem) :
    read (memcpy msg 0 (message code payload)) 8 payload.length = payload := by
  rw [read_memcpy msg _ (length_message hcode hlen).ge, drop_message hcode hlen, List.take_length]

end

/-- `SERVER_BUFFER_SIZE_WITHOUT_PREFIX`. -/
def serverBufferSizeWithoutPrefix : ℕ := 300000

/-- A request of a client: a command of one digit, and a payload for which there is
room in the buffers. -/
structure Request where
  command : ℕ
  payload : List UInt8
  command_le : command ≤ 9
  payload_pos : 0 < payload.length
  payload_le : payload.length ≤ serverBufferSizeWithoutPrefix

namespace Request

/-- `prepareToSend`: the bytes of a request. -/
def bytes (r : Request) : List UInt8 := message r.command r.payload

lemma payload_lt (r : Request) : r.payload.length < 10 ^ 7 :=
  lt_of_le_of_lt r.payload_le (by decide)

lemma length_bytes (r : Request) : r.bytes.length = 8 + r.payload.length :=
  length_message r.command_le r.payload_lt

end Request

end FtThesis
