/-
Packet ids and middlebox ids.

A packet id is a 64-bit number of which 36 bits are in use: the version of the
packet in the five right-most bits and, above them, the base that all versions
of one packet share.

* `base`, `version`: the two parts as the loggers take them (`>> 5`, `& 31`);
* `base_toNat`, `version_toNat`: quotient and remainder by `32`.
-/
import Mathlib.Tactic

namespace FtThesis

/-- A packet id (`uint64_t`). -/
abbrev PacketId := UInt64

/-- A packet id without its version (`packetId >> 5`). -/
abbrev PacketBase := UInt64

/-- A middlebox id (`uint16_t`). -/
abbrev MbId := UInt16

/-- The packet id base: the id without the five right-most bits. -/
def base (packetId : PacketId) : PacketBase := packetId >>> 5

/-- The packet version: the five right-most bits. -/
def version (packetId : PacketId) : ℕ := (packetId &&& 31).toNat

lemma base_toNat (packetId : PacketId) : (base packetId).toNat = packetId.toNat / 32 := by
  simp [base, UInt64.toNat_shiftRight, Nat.shiftRight_eq_div_pow]

lemma version_toNat (packetId : PacketId) : version packetId = packetId.toNat % 32 := by
  rw [version, UInt64.toNat_and]
  exact Nat.and_two_pow_sub_one_eq_mod packetId.toNat 5

lemma version_lt (packetId : PacketId) : version packetId < 32 := by
  rw [version_toNat]
  omega

end FtThesis
