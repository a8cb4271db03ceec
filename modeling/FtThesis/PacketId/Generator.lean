/-
The packet id generator of `PacketIdEncap` and `PushPacketId`.

A sequence number has 28 bits.  Its twelve middle bits become the middle VLAN
id, where `0` and `4095` are reserved, so the numbers with these bits are
skipped, in blocks of `128`.

* `isValidSeqNum`, `getNexSeqNum`, `createInnerVlan`, `createMiddleVlan`,
  `createOuterVlan`, `createId`: the functions of the elements;
* `nthSeqNum`: the number that the `n`-th call on a fresh element returns;
* `nthSeqNum_eq`: its closed form, from the fact that a call from one past the
  `k`-th number arrives at the next one (`nexSeqNumLoop_seqNumAt`), so that an
  invalid number is met only at a multiple of `128`;
* `unifiedId_eq`: the three VLAN ids laid side by side, so that the base of an
  id is the producer id above the sequence number (`unifiedId_base`).
-/
import Mathlib.Tactic

namespace FtThesis

/-! ### The generator -/

/-- `MAX_SEQ_NUM`. -/
def maxSeqNum : ℕ := 268435456

/-- Is `candidate` (a `uint32_t`) free of a reserved middle VLAN id? -/
def isValidSeqNum (candidate : ℕ) : Bool :=
  let candidate := candidate % 2 ^ 32
  let candidate := candidate >>> 7
  let candidate := candidate &&& 4095
  if candidate = 4095 ∨ candidate = 0 then false else true

lemma isValidSeqNum_iff {s : ℕ} (hs : s < 2 ^ 32) :
    isValidSeqNum s = true ↔ s / 128 % 4096 ≠ 0 ∧ s / 128 % 4096 ≠ 4095 := by
  have hand : s >>> 7 &&& 4095 = s / 128 % 4096 := by
    rw [Nat.shiftRight_eq_div_pow]
    exact Nat.and_two_pow_sub_one_eq_mod (s / 2 ^ 7) 12
  simp only [isValidSeqNum, Nat.mod_eq_of_lt hs, hand]
  split_ifs with h <;> simp <;> omega

/-- The number with which the sequence starts again is valid. -/
lemma isValidSeqNum_start : isValidSeqNum 128 = true := by decide

/-- The loop of `getNexSeqNum`: the value of `_seqNum` with which it is left.
It ends from every value: each round but the last adds `128`, and a value above
`maxSeqNum` is replaced by the valid number `128`. -/
def nexSeqNumLoop (seqNum : ℕ) : ℕ :=
  let seqNum' := if maxSeqNum < seqNum then 128 else seqNum
  if isValidSeqNum seqNum' then seqNum' else nexSeqNumLoop (seqNum' + 128)
termination_by if maxSeqNum < seqNum then 0 else maxSeqNum + 1 - seqNum
decreasing_by
  rename_i hinvalid
  by_cases h : maxSeqNum < seqNum
  · exact absurd isValidSeqNum_start (by simpa [seqNum', h] using hinvalid)
  · simp only [if_neg h]
    split_ifs <;> omega

lemma nexSeqNumLoop_of_valid {s : ℕ} (hs : s ≤ maxSeqNum) (h : isValidSeqNum s = true) :
    nexSeqNumLoop s = s := by
  rw [nexSeqNumLoop]
  simp [Nat.not_lt.mpr hs, h]

lemma nexSeqNumLoop_start : nexSeqNumLoop 128 = 128 :=
  nexSeqNumLoop_of_valid (by rw [maxSeqNum]; omega) isValidSeqNum_start

lemma nexSeqNumLoop_of_invalid {s : ℕ} (hs : s ≤ maxSeqNum) (h : isValidSeqNum s = false) :
    nexSeqNumLoop s = nexSeqNumLoop (s + 128) := by
  rw [nexSeqNumLoop]
  simp [Nat.not_lt.mpr hs, h]

lemma nexSeqNumLoop_of_gt {s : ℕ} (hs : maxSeqNum < s) : nexSeqNumLoop s = 128 := by
  rw [nexSeqNumLoop]
  simp [hs, isValidSeqNum_start]

/-- The state of the generator of an element. -/
structure SeqGenerator where
  seqNum : ℕ
  producerId : ℕ

namespace SeqGenerator

/-- The generator of a fresh element with the given producer id. -/
def fresh (producerId : ℕ) : SeqGenerator := ⟨128, producerId⟩

/-- `getNexSeqNum`: the next sequence number (a `uint32_t`) and the state after
the call. -/
def getNexSeqNum (g : SeqGenerator) : ℕ × SeqGenerator :=
  let seqNum := nexSeqNumLoop g.seqNum
  (seqNum % 2 ^ 32, { g with seqNum := seqNum + 1 })

end SeqGenerator

/-- `createInnerVlan`: the producer id above the nine left-most bits. -/
def createInnerVlan (producerId seqNumber : ℕ) : ℕ :=
  let temp := (seqNumber >>> 19) % 2 ^ 16
  (producerId <<< 9 ||| temp) % 2 ^ 16

/-- `createMiddleVlan`: the twelve middle bits. -/
def createMiddleVlan (seqNumber : ℕ) : ℕ :=
  let temp := (seqNumber >>> 7) % 2 ^ 16
  temp &&& 4095

/-- `createOuterVlan`: the seven right-most bits above the initial version. -/
def createOuterVlan (seqNumber : ℕ) : ℕ :=
  let temp := (seqNumber &&& 127) % 2 ^ 16
  let temp := (temp <<< 5) % 2 ^ 16
  temp ||| 1

/-- The id of three VLAN ids. -/
def unifyVlans (innerVlan middleVlan outerVlan : ℕ) : ℕ :=
  (innerVlan <<< 24 ||| middleVlan <<< 12) ||| outerVlan

/-- The id of a sequence number of a producer, as `createId` and `smaction`
build it. -/
def unifiedId (producerId seqNumber : ℕ) : ℕ :=
  unifyVlans (createInnerVlan producerId seqNumber) (createMiddleVlan seqNumber)
    (createOuterVlan seqNumber)

/-- `createId`: the next id and the state after the call. -/
def SeqGenerator.createId (g : SeqGenerator) : ℕ × SeqGenerator :=
  (unifiedId g.producerId g.getNexSeqNum.1, g.getNexSeqNum.2)

/-! ### The sequence -/

/-- The numbers the generator is to run through: 28 bits, of which the twelve
middle ones are not reserved. -/
def IsSeqNum (s : ℕ) : Prop := s < 2 ^ 28 ∧ s >>> 7 &&& 4095 ≠ 0 ∧ s >>> 7 &&& 4095 ≠ 4095

/-- How many numbers there are. -/
def seqPeriod : ℕ := 268304384

/-- The state after `n` calls on a fresh element. -/
def genAfter (producerId : ℕ) : ℕ → SeqGenerator
  | 0 => .fresh producerId
  | n + 1 => (genAfter producerId n).getNexSeqNum.2

/-- The number that the call number `n` on a fresh element returns, from `0`. -/
def nthSeqNum (producerId n : ℕ) : ℕ := (genAfter producerId n).getNexSeqNum.1

/-- The `k`-th of the numbers: `512` blocks of `4094 * 128` of them. -/
def seqNumAt (k : ℕ) : ℕ := k / 524032 * 524288 + 128 + k % 524032

lemma seqPeriod_pos : 0 < seqPeriod := by
  rw [seqPeriod]
  omega

lemma isSeqNum_iff {s : ℕ} :
    IsSeqNum s ↔ s < 2 ^ 28 ∧ s / 128 % 4096 ≠ 0 ∧ s / 128 % 4096 ≠ 4095 := by
  have hand : s >>> 7 &&& 4095 = s / 128 % 4096 := by
    rw [Nat.shiftRight_eq_div_pow]
    exact Nat.and_two_pow_sub_one_eq_mod (s / 2 ^ 7) 12
  rw [IsSeqNum, hand]

lemma seqNumAt_lt {k : ℕ} (hk : k < seqPeriod) : seqNumAt k < 2 ^ 28 := by
  simp only [seqNumAt, seqPeriod] at *
  omega

lemma seqNumAt_middle (k : ℕ) : seqNumAt k / 128 % 4096 = 1 + k % 524032 / 128 := by
  simp only [seqNumAt]
  omega

lemma isSeqNum_seqNumAt {k : ℕ} (hk : k < seqPeriod) : IsSeqNum (seqNumAt k) := by
  rw [isSeqNum_iff, seqNumAt_middle]
  exact ⟨seqNumAt_lt hk, by omega, by omega⟩

lemma isValidSeqNum_seqNumAt {k : ℕ} (hk : k < seqPeriod) : isValidSeqNum (seqNumAt k) = true := by
  have hlt := seqNumAt_lt hk
  rw [isValidSeqNum_iff (by omega), seqNumAt_middle]
  omega

lemma seqNumAt_strictMono : StrictMono seqNumAt := by
  refine strictMono_nat_of_lt_succ fun k => ?_
  simp only [seqNumAt]
  omega

/-- Every number with valid middle bits is one of the sequence. -/
lemma exists_seqNumAt {s : ℕ} (hs : IsSeqNum s) : ∃ k < seqPeriod, seqNumAt k = s := by
  rw [isSeqNum_iff] at hs
  refine ⟨s / 524288 * 524032 + (s % 524288 - 128), ?_, ?_⟩
  · simp only [seqPeriod]
    omega
  · simp only [seqNumAt]
    omega

/-- From one past the `k`-th number, the loop arrives at the next one, over at
most two invalid multiples of `128` and, from the last number, over the end. -/
lemma nexSeqNumLoop_seqNumAt {k : ℕ} (hk : k < seqPeriod) :
    nexSeqNumLoop (seqNumAt k + 1) = seqNumAt ((k + 1) % seqPeriod) := by
  have hlt := seqNumAt_lt hk
  have hmax : maxSeqNum = 2 ^ 28 := rfl
  by_cases hr : k % 524032 = 524031
  · -- the block ends: `s + 1` has middle bits 4095 and `s + 129` has middle bits 0
    have hs : seqNumAt k = k / 524032 * 524288 + 524159 := by
      simp only [seqNumAt]
      omega
    have hq : k / 524032 < 512 := by simp only [seqPeriod] at hk; omega
    have h1 : isValidSeqNum (seqNumAt k + 1) = false := by
      rw [Bool.eq_false_iff, ne_eq, isValidSeqNum_iff (by omega)]
      omega
    have h2 : isValidSeqNum (seqNumAt k + 1 + 128) = false := by
      rw [Bool.eq_false_iff, ne_eq, isValidSeqNum_iff (by omega)]
      omega
    rw [nexSeqNumLoop_of_invalid (by omega) h1, nexSeqNumLoop_of_invalid (by omega) h2]
    by_cases hlast : k / 524032 = 511
    · have hk1 : (k + 1) % seqPeriod = 0 := by
        simp only [seqPeriod] at *
        omega
      rw [nexSeqNumLoop_of_gt (by omega), hk1]
      rfl
    · have hk1 : (k + 1) % seqPeriod = k + 1 := Nat.mod_eq_of_lt (by simp only [seqPeriod]; omega)
      have hnext : seqNumAt (k + 1) = seqNumAt k + 1 + 128 + 128 := by
        simp only [seqNumAt]
        omega
      rw [hk1, ← hnext]
      exact nexSeqNumLoop_of_valid (by omega)
        (isValidSeqNum_seqNumAt (by simp only [seqPeriod]; omega))
  · have hk1 : k + 1 < seqPeriod := by simp only [seqPeriod] at *; omega
    have hnext : seqNumAt (k + 1) = seqNumAt k + 1 := by
      simp only [seqNumAt]
      omega
    rw [Nat.mod_eq_of_lt hk1, ← hnext]
    exact nexSeqNumLoop_of_valid (by have := seqNumAt_lt hk1; omega) (isValidSeqNum_seqNumAt hk1)

lemma genAfter_producerId (p n : ℕ) : (genAfter p n).producerId = p := by
  induction n with
  | zero => rfl
  | succ n ih => exact ih

lemma nexSeqNumLoop_genAfter (p n : ℕ) :
    nexSeqNumLoop (genAfter p n).seqNum = seqNumAt (n % seqPeriod) := by
  induction n with
  | zero => exact nexSeqNumLoop_start
  | succ n ih =>
      have hstate : (genAfter p (n + 1)).seqNum = nexSeqNumLoop (genAfter p n).seqNum + 1 := rfl
      rw [hstate, ih, nexSeqNumLoop_seqNumAt (Nat.mod_lt n seqPeriod_pos), Nat.mod_add_mod]

/-- The closed form of the generated sequence. -/
theorem nthSeqNum_eq (p n : ℕ) : nthSeqNum p n = seqNumAt (n % seqPeriod) := by
  have hlt := seqNumAt_lt (Nat.mod_lt n seqPeriod_pos)
  rw [nthSeqNum, SeqGenerator.getNexSeqNum, nexSeqNumLoop_genAfter]
  exact Nat.mod_eq_of_lt (by omega)

lemma isSeqNum_nthSeqNum (p n : ℕ) : IsSeqNum (nthSeqNum p n) := by
  rw [nthSeqNum_eq]
  exact isSeqNum_seqNumAt (Nat.mod_lt n seqPeriod_pos)

/-! ### The id of a sequence number -/

lemma createInnerVlan_eq {p s : ℕ} (hp : p ≤ 6) (hs : s < 2 ^ 28) :
    createInnerVlan p s = p * 512 + s / 524288 := by
  have htemp : s >>> 19 % 2 ^ 16 = s / 524288 := by
    rw [Nat.shiftRight_eq_div_pow]
    omega
  have hlt : s / 524288 < 2 ^ 9 := by omega
  have hor : p <<< 9 ||| s / 524288 = p * 512 + s / 524288 := by
    calc p <<< 9 ||| s / 524288
        = p <<< 9 + s / 524288 := (Nat.shiftLeft_add_eq_or_of_lt hlt p).symm
      _ = p * 512 + s / 524288 := by rw [Nat.shiftLeft_eq]
  simp only [createInnerVlan, htemp, hor]
  omega

lemma createMiddleVlan_eq (s : ℕ) : createMiddleVlan s = s / 128 % 4096 := by
  simp only [createMiddleVlan, Nat.shiftRight_eq_div_pow]
  rw [show (4095 : ℕ) = 2 ^ 12 - 1 from rfl, Nat.and_two_pow_sub_one_eq_mod]
  omega

lemma createOuterVlan_eq (s : ℕ) : createOuterVlan s = s % 128 * 32 + 1 := by
  have hand : s &&& 127 = s % 128 := Nat.and_two_pow_sub_one_eq_mod s 7
  have hor : (s % 128) <<< 5 ||| 1 = s % 128 * 32 + 1 := by
    rw [← Nat.shiftLeft_add_eq_or_of_lt (i := 5) (by omega), Nat.shiftLeft_eq]
  simp only [createOuterVlan, hand, Nat.mod_eq_of_lt (show s % 128 < 2 ^ 16 by omega)]
  rw [Nat.mod_eq_of_lt (by rw [Nat.shiftLeft_eq]; omega), hor]

/-- Three VLAN ids are laid side by side, twelve bits each. -/
lemma unifyVlans_eq {i m o : ℕ} (hm : m < 4096) (ho : o < 4096) :
    unifyVlans i m o = i * 16777216 + m * 4096 + o := by
  have hm24 : m <<< 12 < 2 ^ 24 := by
    rw [Nat.shiftLeft_eq]
    omega
  have hfirst : i <<< 24 ||| m <<< 12 = (i * 4096 + m) <<< 12 := by
    calc i <<< 24 ||| m <<< 12
        = i <<< 24 + m <<< 12 := (Nat.shiftLeft_add_eq_or_of_lt hm24 i).symm
      _ = (i * 4096 + m) <<< 12 := by
          simp only [Nat.shiftLeft_eq]
          ring
  calc unifyVlans i m o
      = (i * 4096 + m) <<< 12 ||| o := by rw [unifyVlans, hfirst]
    _ = (i * 4096 + m) <<< 12 + o := (Nat.shiftLeft_add_eq_or_of_lt ho _).symm
    _ = i * 16777216 + m * 4096 + o := by
        rw [Nat.shiftLeft_eq]
        ring

/-- A VLAN id that a switch may carry. -/
def IsVlanId (v : ℕ) : Prop := 1 ≤ v ∧ v ≤ 4094

section Ids

variable {p s : ℕ}

lemma isVlanId_inner (hp : 1 ≤ p ∧ p ≤ 6) (hs : IsSeqNum s) : IsVlanId (createInnerVlan p s) := by
  rw [isSeqNum_iff] at hs
  rw [createInnerVlan_eq hp.2 hs.1, IsVlanId]
  omega

lemma isVlanId_middle (hs : IsSeqNum s) : IsVlanId (createMiddleVlan s) := by
  rw [isSeqNum_iff] at hs
  rw [createMiddleVlan_eq, IsVlanId]
  omega

lemma isVlanId_outer (s : ℕ) : IsVlanId (createOuterVlan s) := by
  rw [createOuterVlan_eq, IsVlanId]
  omega

/-- The id: the producer above the sequence number above the version `1`. -/
theorem unifiedId_eq (hp : p ≤ 6) (hs : s < 2 ^ 28) :
    unifiedId p s = (p * 2 ^ 28 + s) * 32 + 1 := by
  rw [unifiedId, createInnerVlan_eq hp hs, createMiddleVlan_eq, createOuterVlan_eq,
    unifyVlans_eq (by omega) (by omega)]
  omega

lemma unifiedId_lt (hp : p ≤ 6) (hs : s < 2 ^ 28) : unifiedId p s < 2 ^ 36 := by
  rw [unifiedId_eq hp hs]
  omega

lemma unifiedId_version (hp : p ≤ 6) (hs : s < 2 ^ 28) : unifiedId p s &&& 31 = 1 := by
  rw [unifiedId_eq hp hs, show (31 : ℕ) = 2 ^ 5 - 1 from rfl, Nat.and_two_pow_sub_one_eq_mod]
  omega

lemma unifiedId_base (hp : p ≤ 6) (hs : s < 2 ^ 28) : unifiedId p s >>> 5 = p * 2 ^ 28 + s := by
  rw [unifiedId_eq hp hs, Nat.shiftRight_eq_div_pow]
  omega

end Ids

end FtThesis
