/-
The requests of the TSA to the cleanup manager.

A request has the id of a middlebox as a decimal number, or two of them with a comma in between.
No terminator is sent, and the buffer for a request is not cleared.

* `getMbIdAs16BitsInt`, `deserializeTsaMbId`, `deserializeStopMasterTsaRequest`,
  `deserializeClientRequest`: the command of a request;
* `receivedCommand`: the command of what comes over a socket into a buffer with some contents;
* `receivedCommand_eq_iff`: it depends on the bytes of the request alone exactly when the command is
  that to stop a master, or the number ends within the request;
* `receivedCommand_six`: a request for the middlebox `6` that is taken for one for `60`.
-/
import FtThesis.Manager.Commands
import FtThesis.Transport.Framing
import FtThesis.Transport.Sending

namespace FtThesis

open Memory Socket Decimals

namespace CleanupManagerServer

/-! ### The ids of a request -/

/-- `getMbIdAs16BitsInt`, on the bytes from `mbId` to the end of the memory; it is `none` if the
number does not end there. -/
def getMbIdAs16BitsInt (mbId : List UInt8) : Option MbId := (scanInt mbId).map UInt16.ofInt

/-- `deserializeTsaMbId`, with the bytes from `msg` to the end of the buffer. -/
def deserializeTsaMbId (msg : List UInt8) : Option MbId := getMbIdAs16BitsInt msg

/-- The array `mbId` of `deserializeStopMasterTsaRequest`, with one of the two parts copied to its
beginning. -/
def mbIdArray (msgLen : ℕ) (part : List UInt8) : List UInt8 :=
  part ++ List.replicate (msgLen - part.length) 0

/-- `deserializeStopMasterTsaRequest`, with what is behind its array in the memory. -/
def deserializeStopMasterTsaRequest (stack msg : List UInt8) (msgLen : ℕ) : Option (MbId × MbId) :=
  let payload := msg.take msgLen
  let old := payload.takeWhile (· ≠ 44)
  let new := payload.drop (old.length + 1)
  (getMbIdAs16BitsInt (mbIdArray msgLen old ++ stack)).bind fun oldMasterMbId =>
    (getMbIdAs16BitsInt (mbIdArray msgLen new ++ stack)).map fun newMasterMbId =>
      (oldMasterMbId, newMasterMbId)

/-- `deserializeClientRequest`, where `some none` is for `NULL`, and `none` when a number does not
end in the memory. -/
def deserializeClientRequest (stack : List UInt8) (command : ℕ) (msg : List UInt8) (msgLen : ℕ) :
    Option (Option Command) :=
  if command = 4 then (deserializeTsaMbId msg).map fun mbId => some (.replay mbId)
  else if command = 5 then (deserializeTsaMbId msg).map fun mbId => some (.clear mbId)
  else if command = 6 then (deserializeTsaMbId msg).map fun mbId => some (.replayAndClear mbId)
  else if command = 7 then
    (deserializeStopMasterTsaRequest stack msg msgLen).map fun ids =>
      some (.stopMaster ids.1 ids.2)
  else some none

/-- What `deserializeClientRequest` makes of the events at a socket, for the contents `msg` of the
new buffer. -/
def receivedCommand (stack : List UInt8) (ev : List Event) (msg : Mem) : Option (Option Command) :=
  let r := AsyncServer.readCommonClientRequest ev msg
  match r.msgLen, r.command with
  | some msgLen, some command =>
      deserializeClientRequest stack command (read r.msg 8 Client.serverBufferSize) msgLen
  | _, _ => some none

/-! ### Which bytes count -/

section

variable (stack : List UInt8) {command : ℕ}

/-- The two ids of a command to stop a master are in the bytes of the request. -/
lemma deserialize_stopMaster (payload behind : List UInt8) :
    deserializeClientRequest stack 7 (payload ++ behind) payload.length
      = deserializeClientRequest stack 7 payload payload.length := by
  simp [deserializeClientRequest, deserializeStopMasterTsaRequest]

/-- The command for one middlebox. -/
lemma exists_deserialize_eq (hcommand : 4 ≤ command ∧ command ≤ 6) :
    ∃ make : MbId → Command, ∀ msg msgLen,
      deserializeClientRequest stack command msg msgLen
        = (scanInt msg).map fun mb => some (make (UInt16.ofInt mb)) := by
  obtain rfl | rfl | rfl : command = 4 ∨ command = 5 ∨ command = 6 := by omega
  · exact ⟨.replay, fun msg _ => by
      simp [deserializeClientRequest, deserializeTsaMbId, getMbIdAs16BitsInt, Function.comp_def]⟩
  · exact ⟨.clear, fun msg _ => by
      simp [deserializeClientRequest, deserializeTsaMbId, getMbIdAs16BitsInt, Function.comp_def]⟩
  · exact ⟨.replayAndClear, fun msg _ => by
      simp [deserializeClientRequest, deserializeTsaMbId, getMbIdAs16BitsInt, Function.comp_def]⟩

/-- Bytes behind a request for one middlebox do not count exactly when its number ends before
them. -/
lemma deserialize_eq_iff (hcommand : 4 ≤ command ∧ command ≤ 6) (payload : List UInt8)
    {n : ℕ} (hn : n ≠ 0) :
    (∀ behind behind' : List UInt8, behind.length = n → behind'.length = n →
        deserializeClientRequest stack command (payload ++ behind) payload.length
          = deserializeClientRequest stack command (payload ++ behind') payload.length) ↔
      (scanInt payload).isSome = true := by
  obtain ⟨make, hmake⟩ := exists_deserialize_eq stack hcommand
  simp only [hmake]
  constructor
  · intro h
    by_contra hopen
    have hnone : scanInt payload = none := by simpa using hopen
    obtain ⟨k, rfl⟩ := Nat.exists_eq_succ_of_ne_zero hn
    have hall : (List.replicate (k + 1) (48 : UInt8)).all isDigit = true :=
      List.all_eq_true.mpr fun b hb => by rw [List.eq_of_mem_replicate hb]; rfl
    have hdigits := scanInt_append_digits hnone hall
    have hzero := scanInt_append_zero payload (List.replicate k 0)
    have hsame := h (List.replicate (k + 1) 48) (0 :: List.replicate k 0) (by simp) (by simp)
    rw [hdigits, Option.map_none] at hsame
    rw [Option.isSome_iff_exists] at hzero
    obtain ⟨v, hv⟩ := hzero
    rw [hv] at hsame
    exact absurd hsame (by simp)
  · intro hends behind behind' _ _
    obtain ⟨v, hv⟩ := Option.isSome_iff_exists.mp hends
    rw [scanInt_append hv, scanInt_append hv]

end

/-! ### The requests that are received -/

section

variable (stack : List UInt8) {ev : List Event} (hev : Delivers ev) {r : Request}
  {rest : List UInt8} (hstream : stream ev = r.bytes ++ rest)
  (hquiet : ∀ p ∈ waits ev, r.bytes.length ≤ p)

include hev hstream hquiet

/-- The payload of a request stands in front of what the buffer contained there. -/
lemma receivedCommand_of_quiet (msg : Mem) :
    receivedCommand stack ev msg =
      deserializeClientRequest stack r.command
        (r.payload ++ read msg (8 + r.payload.length)
          (Client.serverBufferSize - r.payload.length)) r.payload.length := by
  have hle : r.payload.length ≤ Client.serverBufferSize :=
    r.payload_le.trans (by decide)
  have hsize : Client.serverBufferSize
      = r.payload.length + (Client.serverBufferSize - r.payload.length) := by omega
  have hpayload : read (memcpy msg 0 r.bytes) 8 r.payload.length = r.payload :=
    read_payload r.command_le r.payload_lt msg
  have hbuffer : read (memcpy msg 0 r.bytes) 8 Client.serverBufferSize
      = r.payload ++ read msg (8 + r.payload.length)
          (Client.serverBufferSize - r.payload.length) := by
    rw [hsize, read_add, hpayload, ← hsize,
      read_memcpy_of_le msg (by rw [r.length_bytes, Nat.zero_add])]
  rw [← hbuffer]
  simp only [receivedCommand,
    AsyncServer.readCommonClientRequest_of_quiet hev hstream hquiet]

/-- **Requests and their own bytes.**  A request of the TSA with one of its four commands comes
without an interruption.  The middlebox ids that it is read with are the same for all contents of
the buffer behind its payload exactly when it is the command to stop a master, or its number ends
within the payload. -/
theorem receivedCommand_eq_iff (hcommand : 4 ≤ r.command ∧ r.command ≤ 7) :
    (∀ msg msg', receivedCommand stack ev msg = receivedCommand stack ev msg') ↔
      r.command = 7 ∨ (scanInt r.payload).isSome = true := by
  have hreceived := receivedCommand_of_quiet stack hev hstream hquiet
  rcases eq_or_ne r.command 7 with hstop | hne
  · refine iff_of_true (fun msg msg' => ?_) (.inl hstop)
    rw [hreceived, hreceived, hstop, deserialize_stopMaster, deserialize_stopMaster]
  · have hmore : Client.serverBufferSize - r.payload.length ≠ 0 := by
      have hle := r.payload_le
      simp only [Client.serverBufferSize]
      omega
    have hone : 4 ≤ r.command ∧ r.command ≤ 6 := by omega
    rw [or_iff_right hne, ← deserialize_eq_iff stack hone r.payload hmore]
    constructor
    · intro h behind behind' hbehind hbehind'
      have hsame := h (memcpy (fun _ => 0) (8 + r.payload.length) behind)
        (memcpy (fun _ => 0) (8 + r.payload.length) behind')
      rwa [hreceived, hreceived, ← hbehind, read_memcpy_self, hbehind, ← hbehind',
        read_memcpy_self] at hsame
    · intro h msg msg'
      rw [hreceived, hreceived]
      exact h _ _ (length_read ..) (length_read ..)

end

/-- The request to replay the packets of the middlebox `6`, as the TSA sends it. -/
def replaySix : Request := ⟨4, [54], by decide, by decide, by decide⟩

/-- The request comes in one chunk. -/
def replaySixEvents : List Event := [.data 48 replaySix.bytes.tail]

lemma replaySixEvents_spec :
    Delivers replaySixEvents ∧ stream replaySixEvents = replaySix.bytes ++ [] ∧
      ∀ p ∈ waits replaySixEvents, replaySix.bytes.length ≤ p :=
  ⟨by simp [Delivers, replaySixEvents], by decide, by simp [waits, replaySixEvents]⟩

/-- With a space behind its number, the request is read the same way from any buffer. -/
theorem receivedCommand_six_space :
    let r : Request := ⟨4, [54, 32], by decide, by decide, by decide⟩
    let ev : List Event := [.data 48 (r.bytes.tail.take 4), .data 48 (r.bytes.drop 6)]
    ∀ msg msg', receivedCommand [] ev msg = receivedCommand [] ev msg' := by
  intro r ev
  have hev : Delivers ev := by simp [Delivers, ev]
  have hstream : stream ev = r.bytes ++ [] := by decide
  have hends : r.command = 7 ∨ (scanInt r.payload).isSome = true := .inr (by decide)
  exact (receivedCommand_eq_iff [] hev hstream (by simp [ev, waits]) (by decide)).mpr hends

/-- A buffer with a digit behind the place of the payload of that request. -/
def leftDigit : Mem := fun q => if q = 9 then 48 else 0

/-- From a buffer with a digit behind it, the request for the middlebox `6` is read as one for
`60`. -/
theorem receivedCommand_six :
    ¬ ∀ (stack : List UInt8) (ev : List Event) (r : Request) (rest : List UInt8) (msg msg' : Mem),
      Delivers ev → stream ev = r.bytes ++ rest → (∀ p ∈ waits ev, r.bytes.length ≤ p) →
      4 ≤ r.command ∧ r.command ≤ 7 →
      receivedCommand stack ev msg = receivedCommand stack ev msg' := by
  intro h
  obtain ⟨hev, hstream, hquiet⟩ := replaySixEvents_spec
  have hsame := h [] replaySixEvents replaySix [] (fun _ => 0) leftDigit hev hstream hquiet
    (by decide)
  have hreceived := receivedCommand_of_quiet [] hev hstream hquiet
  have hsplit (msg : Mem) : replaySix.payload ++ read msg (8 + replaySix.payload.length)
        (Client.serverBufferSize - replaySix.payload.length)
      = (54 :: read msg 9 2) ++ read msg 11 (Client.serverBufferSize - 3) := by
    have hsize : Client.serverBufferSize - replaySix.payload.length
        = 2 + (Client.serverBufferSize - 3) := by decide
    rw [hsize, read_add]
    simp [replaySix]
  have hsix : scanInt (54 :: read (fun _ => 0) 9 2) = some 6 := by decide
  have hsixty : scanInt (54 :: read leftDigit 9 2) = some 60 := by decide
  rw [hreceived, hreceived, hsplit, hsplit] at hsame
  have hreplay (msg : List UInt8) (msgLen : ℕ) :
      deserializeClientRequest [] replaySix.command msg msgLen
        = (scanInt msg).map fun mb => some (.replay (UInt16.ofInt mb)) := by
    simp [deserializeClientRequest, replaySix, deserializeTsaMbId, getMbIdAs16BitsInt,
      Function.comp_def]
  rw [hreplay, hreplay, scanInt_append hsix, scanInt_append hsixty] at hsame
  exact absurd hsame (by decide)

end CleanupManagerServer

end FtThesis
