/-
Validity and uniqueness of the packet ids that are created in a run.

Several producers run side by side, each with its own generator, and the order
in which they create ids is arbitrary.

* `createIds`: the ids created by a schedule of producers;
* `createIds_getElem`: the id at a place of the schedule is the id of the call
  that its producer makes there;
* `packet_ids_valid_and_unique`: the sequence of one producer, the VLAN ids and
  the version of every id, and the distinctness of bases across a schedule.
-/
import FtThesis.PacketId.Generator

namespace FtThesis

/-! ### Schedules of producers -/

/-- The ids created when the producers call `createId` in the order of the
schedule, each on its own generator. -/
def createIds (gen : ℕ → SeqGenerator) : List ℕ → List ℕ
  | [] => []
  | p :: ps => (gen p).createId.1 :: createIds (Function.update gen p (gen p).createId.2) ps

/-- The invariant of a schedule: producer `q` is in the state after the calls it
has made, `n q` of them so far. -/
lemma createIds_getElem_aux (ps : List ℕ) (n : ℕ → ℕ) (i : ℕ) :
    (createIds (fun q => genAfter q (n q)) ps)[i]?
      = ps[i]?.map fun p => unifiedId p (nthSeqNum p (n p + (ps.take i).count p)) := by
  induction ps generalizing n i with
  | nil => rfl
  | cons p ps ih =>
      have hstate : Function.update (fun q => genAfter q (n q)) p (genAfter p (n p)).createId.2
          = fun q => genAfter q (Function.update n p (n p + 1) q) := by
        funext q
        by_cases hq : q = p
        · subst hq
          simp [genAfter, SeqGenerator.createId]
        · simp [hq]
      cases i with
      | zero => simp [createIds, SeqGenerator.createId, genAfter_producerId, nthSeqNum]
      | succ i =>
          simp only [createIds, hstate, List.getElem?_cons_succ, List.take_succ_cons, ih,
            List.count_cons]
          refine Option.map_congr fun r _ => ?_
          have hcalls : Function.update n p (n p + 1) r + (ps.take i).count r
              = n r + ((ps.take i).count r + if p == r then 1 else 0) := by
            by_cases hr : r = p
            · simp [hr]
              omega
            · simp [hr, Ne.symm hr]
          rw [hcalls]

/-- The id at place `i` of a schedule of fresh producers: the id of the call that
the producer at this place makes, after its calls before. -/
lemma createIds_getElem (ps : List ℕ) (i : ℕ) :
    (createIds .fresh ps)[i]?
      = ps[i]?.map fun p => unifiedId p (nthSeqNum p ((ps.take i).count p)) := by
  have h := createIds_getElem_aux ps (fun _ => 0) i
  simpa [genAfter] using h

/-- Within one period, different calls of a producer return different numbers. -/
lemma nthSeqNum_inj {p m n : ℕ} (hmn : m < n) (hn : n - m < seqPeriod) :
    nthSeqNum p m ≠ nthSeqNum p n := by
  intro h
  rw [nthSeqNum_eq, nthSeqNum_eq] at h
  have hmod : m % seqPeriod = n % seqPeriod := seqNumAt_strictMono.injective h
  simp only [seqPeriod] at *
  omega

/-- The calls of a producer before two places of a schedule, the first one its own. -/
lemma count_take_lt {ps : List ℕ} {i j p : ℕ} (hij : i < j) (hp : ps[i]? = some p) :
    (ps.take i).count p < (ps.take j).count p ∧
      (ps.take j).count p - (ps.take i).count p = ((ps.take j).drop i).count p := by
  have hsplit : ps.take i ++ (ps.take j).drop i = ps.take j := by
    calc ps.take i ++ (ps.take j).drop i
        = (ps.take j).take i ++ (ps.take j).drop i := by
          rw [List.take_take, Nat.min_eq_left hij.le]
      _ = ps.take j := List.take_append_drop _ _
  have hmem : p ∈ (ps.take j).drop i := by
    rw [List.mem_iff_getElem?]
    exact ⟨0, by simp [hij, hp]⟩
  have hpos := List.count_pos_iff.mpr hmem
  have hcount := congrArg (List.count p) hsplit
  rw [List.count_append] at hcount
  omega

/-! ### The main result -/

/-- **Packet ids are valid and unique.**  For every producer id in `1..6`: the
loop of the generator ends with each of the valid 28-bit numbers in increasing
order, each once, and then starts again at `128`; every id has three VLAN ids in
`1..4094` and the version `1` and is below `2 ^ 36`; and in every schedule of
producers, two ids of different producers, or of one producer within one period,
have different bases. -/
theorem packet_ids_valid_and_unique :
    (∀ p, 1 ≤ p ∧ p ≤ 6 →
      (nthSeqNum p 0 = 128
        ∧ (∀ m n, m < n → n < seqPeriod → nthSeqNum p m < nthSeqNum p n)
        ∧ (∀ s, (∃ n < seqPeriod, nthSeqNum p n = s) ↔ IsSeqNum s)
        ∧ (∀ n, nthSeqNum p (n + seqPeriod) = nthSeqNum p n))
      ∧ ∀ n, IsVlanId (createInnerVlan p (nthSeqNum p n))
        ∧ IsVlanId (createMiddleVlan (nthSeqNum p n))
        ∧ IsVlanId (createOuterVlan (nthSeqNum p n))
        ∧ (genAfter p n).createId.1 = unifiedId p (nthSeqNum p n)
        ∧ unifiedId p (nthSeqNum p n) &&& 31 = 1
        ∧ unifiedId p (nthSeqNum p n) < 2 ^ 36)
    ∧ ∀ (schedule : List ℕ) (i j a b : ℕ), i < j → (∀ p ∈ schedule, 1 ≤ p ∧ p ≤ 6) →
        (createIds .fresh schedule)[i]? = some a → (createIds .fresh schedule)[j]? = some b →
        (∀ p, schedule[i]? = some p → schedule[j]? = some p →
          ((schedule.take j).drop i).count p < seqPeriod) →
        a >>> 5 ≠ b >>> 5 := by
  refine ⟨fun p hp => ⟨⟨?_, ?_, ?_, ?_⟩, fun n => ?_⟩, ?_⟩
  · rw [nthSeqNum_eq]
    rfl
  · intro m n hmn hn
    rw [nthSeqNum_eq, nthSeqNum_eq, Nat.mod_eq_of_lt hn, Nat.mod_eq_of_lt (hmn.trans hn)]
    exact seqNumAt_strictMono hmn
  · intro s
    constructor
    · rintro ⟨n, -, rfl⟩
      exact isSeqNum_nthSeqNum p n
    · intro hs
      obtain ⟨k, hk, rfl⟩ := exists_seqNumAt hs
      exact ⟨k, hk, by rw [nthSeqNum_eq, Nat.mod_eq_of_lt hk]⟩
  · intro n
    rw [nthSeqNum_eq, nthSeqNum_eq, Nat.add_mod_right]
  · have hs := isSeqNum_nthSeqNum p n
    refine ⟨isVlanId_inner hp hs, isVlanId_middle hs, isVlanId_outer _, ?_,
      unifiedId_version hp.2 hs.1, unifiedId_lt hp.2 hs.1⟩
    rw [SeqGenerator.createId, genAfter_producerId, nthSeqNum]
  · intro schedule i j a b hij hall ha hb hperiod hbase
    rw [createIds_getElem, Option.map_eq_some_iff] at ha hb
    obtain ⟨p, hp, rfl⟩ := ha
    obtain ⟨q, hq, rfl⟩ := hb
    have hp6 := hall p (List.mem_of_getElem? hp)
    have hq6 := hall q (List.mem_of_getElem? hq)
    have hs := (isSeqNum_nthSeqNum p ((schedule.take i).count p)).1
    have ht := (isSeqNum_nthSeqNum q ((schedule.take j).count q)).1
    rw [unifiedId_base hp6.2 hs, unifiedId_base hq6.2 ht] at hbase
    obtain rfl : p = q := by omega
    obtain ⟨hlt, hsub⟩ := count_take_lt hij hp
    exact nthSeqNum_inj (p := p) hlt (by rw [hsub]; exact hperiod p hp hq) (by omega)

/-- Two producers that take turns get ids with different bases. -/
theorem packet_ids_unique_for_two_producers :
    unifiedId 1 128 >>> 5 ≠ unifiedId 2 128 >>> 5 := by
  refine packet_ids_valid_and_unique.2 [1, 2] 0 1 _ _ (by decide) (by decide) ?_ ?_ ?_
  · simp [createIds, SeqGenerator.createId, SeqGenerator.getNexSeqNum, SeqGenerator.fresh,
      nexSeqNumLoop_start]
  · simp [createIds, SeqGenerator.createId, SeqGenerator.getNexSeqNum, SeqGenerator.fresh,
      nexSeqNumLoop_start]
  · decide

end FtThesis
