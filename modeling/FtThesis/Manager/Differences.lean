/-
Are the packets to be replayed those that the slave has not processed?

The first loop of `getUnprocessedPacketIds` moves one iterator in each of the two vectors, and
erases from the vector of the master as it goes.

* `Iteration`, `firstRound`, `secondRound`, `Executes`: the two loops, with their iterators;
* `walk`: what the first loop does to the two lists, with `firstLoop_iff`;
* `executes_iff`: the loops compute `getUnprocessedPacketIds`;
* `setDifference_iff`: the result is the difference of the two lists exactly when common ids
  are at the same place;
* `iteratorSafe_iff`: no iterator passes an end or an entry exactly when no packet is omitted;
* `not_setDifference`, `not_iteratorSafe`: lists for which it is not so.
-/
import FtThesis.Library.Runs
import FtThesis.Manager.Lists

namespace FtThesis

open AlignedLists Transition

namespace CleanupManagerServer

/-! ### The difference of the lists -/

/-- When no packets have been replayed before, exactly the ids of the master that the slave does
not have are left, in order, and the set has exactly their bases. -/
def IsSetDifference (master slave : List PacketId) : Prop :=
  getUnprocessedPacketIds master slave ∅ =
    some (master.filter (· ∉ slave), bases (master.filter (· ∉ slave)))

/-- Every id of the master that the slave has is at the same place in both lists. -/
def SamePlaces (master slave : List PacketId) : Prop :=
  ∀ (k : ℕ) (id : PacketId), master[k]? = some id → id ∈ slave → slave[k]? = some id

/-- Of different ids, those that the slave does not have at the same place are those that it
does not have exactly when the common ones are at the same places. -/
lemma unmatched_eq_filter_iff {master : List PacketId} (slave : List PacketId)
    (hnodup : master.Nodup) :
    unmatched master slave = master.filter (· ∉ slave) ↔ SamePlaces master slave := by
  have hmem (k : ℕ) (id : PacketId) (hid : master[k]? = some id) :
      id ∈ unmatched master slave ↔ slave[k]? ≠ some id := by
    rw [mem_unmatched_iff]
    constructor
    · rintro ⟨j, hj, hne⟩
      have hlt : j < master.length := (List.getElem?_eq_some_iff.mp hj).1
      obtain rfl : j = k := (List.getElem?_inj hlt hnodup).mp (hj.trans hid.symm)
      exact hne
    · exact fun hne => ⟨k, hid, hne⟩
  constructor
  · intro h k id hid hslave
    by_contra hne
    have hleft := (hmem k id hid).mpr hne
    rw [h, List.mem_filter] at hleft
    simp [hslave] at hleft
  · intro h
    rw [← (unmatched_sublist master slave).filter_mem_eq hnodup]
    refine List.filter_congr fun id hid => ?_
    obtain ⟨k, hk⟩ := List.mem_iff_getElem?.mp hid
    rw [decide_eq_decide, hmem k id hk]
    exact ⟨fun hne hslave => hne (h k id hk hslave), fun hslave heq =>
      hslave (List.mem_of_getElem? heq)⟩

/-- **The difference of the lists.**  Of a master list with one id for each packet, exactly the
ids that the slave does not have are left, and their bases are in the set, exactly when each id
that is in both lists is at the same place in them. -/
theorem setDifference_iff {master : List PacketId} (slave : List PacketId)
    (hnodup : (master.map base).Nodup) :
    IsSetDifference master slave ↔ SamePlaces master slave := by
  rw [IsSetDifference, getUnprocessedPacketIds_eq slave hnodup, Option.some.injEq, Prod.mk.injEq,
    ← unmatched_eq_filter_iff slave hnodup.of_map]
  exact ⟨fun h => h.1, fun h => ⟨h, h ▸ rfl⟩⟩

/-- The slave has the first id of the master, and not the second one. -/
theorem setDifference_prefix : IsSetDifference [33, 65] [33] :=
  (setDifference_iff [33] (by decide)).mpr <| by
    rintro (_ | _ | k) id hid hslave
    · simpa using hid
    · obtain rfl : 65 = id := by simpa using hid
      exact absurd hslave (by decide)
    · simp at hid

/-- The slave has the second id of the master only, which is to be replayed nevertheless. -/
theorem not_setDifference :
    ¬ ∀ master slave : List PacketId, (master.map base).Nodup → (slave.map base).Nodup →
      IsSetDifference master slave := by
  intro h
  have hwrong := h [33, 65] [65] (by decide) (by decide)
  rw [IsSetDifference, getUnprocessedPacketIds_eq [65] (by decide)] at hwrong
  have hids := congrArg Prod.fst (Option.some.inj hwrong)
  exact absurd hids (by decide)

/-! ### The iterators -/

/-- The variables of `getUnprocessedPacketIds`: the vector of the master, with a note whether
the first loop has read the entry, the places of the two iterators, and the set. -/
structure Iteration where
  master : List (PacketId × Bool)
  masterIter : ℕ
  slaveIter : ℕ
  already : Finset PacketBase

/-- The test of the first loop: no iterator is at its end. -/
def firstTest (slave : List PacketId) (it : Iteration) : Bool :=
  it.masterIter != it.master.length && it.slaveIter != slave.length

/-- The body of the first loop.  It is undefined to read at an end, and to move an iterator
on from there. -/
def firstRound (slave : List PacketId) (it : Iteration) : Option Iteration :=
  match it.master[it.masterIter]?, slave[it.slaveIter]? with
  | some (m, _), some s =>
      let packetBase := base m
      let erased := it.master.eraseIdx it.masterIter
      if m = s then
        some ⟨erased, it.masterIter, it.slaveIter + 1, it.already.erase packetBase⟩
      else if packetBase ∉ it.already then
        some ⟨it.master.set it.masterIter (m, true), it.masterIter + 1, it.slaveIter + 1,
          insert packetBase it.already⟩
      else if it.masterIter < erased.length then
        some ⟨erased, it.masterIter + 1, it.slaveIter + 1, it.already⟩
      else none
  | _, _ => none

/-- The test of the second loop. -/
def secondTest (it : Iteration) : Bool := it.masterIter != it.master.length

/-- The body of the second loop. -/
def secondRound (it : Iteration) : Option Iteration :=
  it.master[it.masterIter]?.map fun m =>
    { it with masterIter := it.masterIter + 1, already := insert (base m.1) it.already }

/-- The two loops end without doing anything undefined, the first one with the variables `it`
and the second one with `last`. -/
def Executes (master slave : List PacketId) (already : Finset PacketBase) (it last : Iteration) :
    Prop :=
  While (firstTest slave) (firstRound slave) ⟨master.map (·, false), 0, 0, already⟩ it ∧
    While secondTest secondRound { it with masterIter := 0 } last

/-- The loops end without doing anything undefined, and the first one has read every entry
that it has passed and not erased. -/
def IteratorSafe (master slave : List PacketId) (already : Finset PacketBase) : Prop :=
  ∃ it last, Executes master slave already it last ∧
    ∀ entry ∈ it.master.take it.masterIter, entry.2 = true

/-- What the first loop does to the lists behind its iterators: the entries that it passes,
those that it does not come to, the rest of the slave list, and the set. -/
def walk : List PacketId → List PacketId → Finset PacketBase →
    Option (List (PacketId × Bool) × List PacketId × List PacketId × Finset PacketBase)
  | [], slave, already => some ([], [], slave, already)
  | m :: master, [], already => some ([], m :: master, [], already)
  | m :: master, s :: slave, already =>
      if m = s then walk master slave (already.erase (base m))
      else if base m ∉ already then
        (walk master slave (insert (base m) already)).map fun r => ((m, true) :: r.1, r.2)
      else
        match master with
        | [] => none
        | m' :: master => (walk master slave already).map fun r => ((m', false) :: r.1, r.2)

/-- The loop on the lists does what the walk does. -/
lemma unprocessedLoop_eq_walk (master slave : List PacketId) (already : Finset PacketBase) :
    unprocessedLoop master slave already =
      (walk master slave already).map fun r => (r.1.map Prod.fst ++ r.2.1, r.2.2.2) := by
  fun_induction walk master slave already with
  | case1 => rfl
  | case2 => rfl
  | case3 master m slave already ih =>
      rw [unprocessedLoop.eq_def]
      simp only [if_pos, ih]
  | case4 m master s slave already hne hnew ih =>
      rw [unprocessedLoop.eq_def]
      simp only [if_neg hne, if_pos hnew, ih, Option.map_map]
      rfl
  | case5 m s slave already hne hold =>
      rw [unprocessedLoop.eq_def]
      simp only [if_neg hne, if_neg hold, Option.map_none]
  | case6 m s slave already hne hold m' master ih =>
      rw [unprocessedLoop.eq_def]
      simp only [if_neg hne, if_neg hold, ih, Option.map_map]
      rfl

section

variable (sb slave : List PacketId) (before : List (PacketId × Bool)) (already : Finset PacketBase)

/-- There is a mapped value exactly when there is a value. -/
lemma exists_map_eq_some_iff {α β : Type} {o : Option α} {f : α → β} {p : β → Prop} :
    (∃ b, o.map f = some b ∧ p b) ↔ ∃ a, o = some a ∧ p (f a) := by
  cases o <;> simp

/-- One round of the first loop, by the two ids that it reads. -/
lemma firstRound_eq (m s : PacketId) (flag : Bool) (rest : List (PacketId × Bool)) :
    firstRound (sb ++ s :: slave) ⟨before ++ (m, flag) :: rest, before.length, sb.length, already⟩ =
      if m = s then
        some ⟨before ++ rest, before.length, sb.length + 1, already.erase (base m)⟩
      else if base m ∉ already then
        some ⟨before ++ (m, true) :: rest, before.length + 1, sb.length + 1,
          insert (base m) already⟩
      else if 0 < rest.length then
        some ⟨before ++ rest, before.length + 1, sb.length + 1, already⟩
      else none := by
  have hmaster : (before ++ (m, flag) :: rest)[before.length]? = some (m, flag) := by simp
  have hslave : (sb ++ s :: slave)[sb.length]? = some s := by simp
  have herase : (before ++ (m, flag) :: rest).eraseIdx before.length = before ++ rest := by
    rw [List.eraseIdx_append_of_length_le le_rfl, Nat.sub_self, List.eraseIdx_cons_zero]
  have hset : (before ++ (m, flag) :: rest).set before.length (m, true)
      = before ++ (m, true) :: rest := by simp
  have hlen : before.length < (before ++ rest).length ↔ 0 < rest.length := by simp
  simp only [firstRound, hmaster, hslave, herase, hset, hlen]

lemma firstTest_eq_true (m s : PacketId) (flag : Bool) (rest : List (PacketId × Bool)) :
    firstTest (sb ++ s :: slave) ⟨before ++ (m, flag) :: rest, before.length, sb.length, already⟩
      = true := by
  simp [firstTest]

/-- The first loop does what the walk does. -/
lemma firstLoop_iff (master : List PacketId) (it : Iteration) :
    While (firstTest (sb ++ slave)) (firstRound (sb ++ slave))
        ⟨before ++ master.map (·, false), before.length, sb.length, already⟩ it ↔
      ∃ r, walk master slave already = some r ∧
        it = ⟨before ++ r.1 ++ r.2.1.map (·, false), before.length + r.1.length,
          (sb ++ slave).length - r.2.2.1.length, r.2.2.2⟩ := by
  fun_induction walk master slave already generalizing before sb with
  | case1 slave already =>
      rw [while_iff_of_done (by simp [firstTest])]
      simp
  | case2 m master already =>
      rw [while_iff_of_done (by simp [firstTest])]
      simp
  | case3 master m slave already ih =>
      rw [List.map_cons, while_iff_of_round (firstTest_eq_true ..), firstRound_eq, if_pos rfl]
      have hrest := ih (sb ++ [m]) before
      simp only [List.append_assoc, List.singleton_append, List.length_append,
        List.length_singleton] at hrest
      simpa using hrest
  | case4 m master s slave already hne hnew ih =>
      rw [List.map_cons, while_iff_of_round (firstTest_eq_true ..), firstRound_eq, if_neg hne,
        if_pos hnew]
      have hrest := ih (sb ++ [s]) (before ++ [(m, true)])
      simp only [List.append_assoc, List.singleton_append, List.length_append,
        List.length_singleton] at hrest
      rw [exists_map_eq_some_iff]
      simpa [Nat.add_assoc, Nat.add_comm 1] using hrest
  | case5 m s slave already hne hold =>
      rw [List.map_cons, while_iff_of_round (firstTest_eq_true ..), firstRound_eq, if_neg hne,
        if_neg hold]
      simp
  | case6 m s slave already hne hold m' master ih =>
      rw [List.map_cons, while_iff_of_round (firstTest_eq_true ..), firstRound_eq, if_neg hne,
        if_neg hold]
      have hrest := ih (sb ++ [s]) (before ++ [(m', false)])
      simp only [List.append_assoc, List.singleton_append, List.length_append,
        List.length_singleton] at hrest
      rw [exists_map_eq_some_iff]
      simpa [Nat.add_assoc, Nat.add_comm 1] using hrest

/-- The second loop comes to the end of the vector, and adds the bases of its entries. -/
lemma secondLoop_iff (slaveIter : ℕ) (rest : List (PacketId × Bool)) (it : Iteration) :
    While secondTest secondRound ⟨before ++ rest, before.length, slaveIter, already⟩ it ↔
      it = ⟨before ++ rest, (before ++ rest).length, slaveIter,
        already ∪ bases (rest.map Prod.fst)⟩ := by
  induction rest generalizing before already with
  | nil =>
      rw [while_iff_of_done (by simp [secondTest])]
      simp [bases]
  | cons entry rest ih =>
      have htest : secondTest ⟨before ++ entry :: rest, before.length, slaveIter, already⟩
          = true := by
        simp [secondTest]
      have hround : secondRound ⟨before ++ entry :: rest, before.length, slaveIter, already⟩
          = some ⟨before ++ entry :: rest, before.length + 1, slaveIter,
            insert (base entry.1) already⟩ := by
        simp [secondRound]
      have hrest := ih (before ++ [entry]) (insert (base entry.1) already)
      simp only [List.append_assoc, List.singleton_append, List.length_append,
        List.length_singleton] at hrest
      rw [while_iff_of_round htest, hround]
      simpa [bases, Finset.insert_union, Finset.union_insert] using hrest

end

section

variable (master slave : List PacketId) (already : Finset PacketBase)

/-- What the two loops do, by the walk. -/
lemma executes_iff_walk (it last : Iteration) :
    Executes master slave already it last ↔
      ∃ r, walk master slave already = some r ∧
        it = ⟨r.1 ++ r.2.1.map (·, false), r.1.length, slave.length - r.2.2.1.length, r.2.2.2⟩ ∧
        last = { it with
          masterIter := it.master.length
          already := it.already ∪ bases (it.master.map Prod.fst) } := by
  have hfirst := firstLoop_iff [] slave [] already master it
  have hsecond := secondLoop_iff [] it.already it.slaveIter it.master last
  simp only [List.nil_append, List.length_nil, Nat.zero_add] at hfirst hsecond
  rw [Executes, hfirst, hsecond]
  constructor
  · rintro ⟨⟨r, hr, hit⟩, hlast⟩
    exact ⟨r, hr, hit, hlast⟩
  · rintro ⟨r, hr, hit, hlast⟩
    exact ⟨⟨r, hr, hit⟩, hlast⟩

/-- The loops compute the result of `getUnprocessedPacketIds`. -/
theorem executes_iff (ids : List PacketId) (set : Finset PacketBase) :
    getUnprocessedPacketIds master slave already = some (ids, set) ↔
      ∃ it last, Executes master slave already it last ∧ last.master.map Prod.fst = ids ∧
        last.already = set := by
  rw [getUnprocessedPacketIds, unprocessedLoop_eq_walk, Option.map_map, Option.map_eq_some_iff]
  simp only [executes_iff_walk, foldl_insert_base, Function.comp_apply, Prod.mk.injEq]
  constructor
  · rintro ⟨r, hr, hids, hset⟩
    refine ⟨_, _, ⟨r, hr, rfl, rfl⟩, ?_, ?_⟩
    · simpa [Function.comp_def] using hids
    · simpa [Function.comp_def] using hset
  · rintro ⟨it, last, ⟨r, hr, rfl, rfl⟩, hids, hset⟩
    refine ⟨r, hr, ?_, ?_⟩
    · simpa [Function.comp_def] using hids
    · simpa [Function.comp_def] using hset

/-- Whether the loops are safe, by the walk. -/
lemma iteratorSafe_iff_walk :
    IteratorSafe master slave already ↔
      ∃ r, walk master slave already = some r ∧ ∀ entry ∈ r.1, entry.2 = true := by
  simp only [IteratorSafe, executes_iff_walk]
  constructor
  · rintro ⟨it, last, ⟨r, hr, rfl, rfl⟩, hread⟩
    rw [List.take_left] at hread
    exact ⟨r, hr, hread⟩
  · rintro ⟨r, hr, hread⟩
    refine ⟨_, _, ⟨r, hr, rfl, rfl⟩, ?_⟩
    rwa [List.take_left]

end

/-! ### When no packet is omitted -/

/-- Before the `k`-th round the set has the base `b`, if no packet is omitted before: the last
packet of the master with this base is not the one of the slave at its place; or there is none
yet, and the set has had the base from the start. -/
def Marked (master slave : List PacketId) (already : Finset PacketBase) (k : ℕ) (b : PacketBase) :
    Prop :=
  (∃ i < k, ∃ m, master[i]? = some m ∧ base m = b ∧ slave[i]? ≠ some m ∧
      ∀ j m', i < j → j < k → master[j]? = some m' → base m' ≠ b) ∨
    b ∈ already ∧ ∀ j m', j < k → master[j]? = some m' → base m' ≠ b

/-- Wherever the two lists have different packets, the base of the master's one is not in the
set. -/
def NothingOmitted (master slave : List PacketId) (already : Finset PacketBase) : Prop :=
  ∀ (k : ℕ) (m s : PacketId), master[k]? = some m → slave[k]? = some s → m ≠ s →
    ¬ Marked master slave already k (base m)

section

variable {master slave : List PacketId} {already : Finset PacketBase}

/-- The set after the first round. -/
def afterRound (m s : PacketId) (already : Finset PacketBase) : Finset PacketBase :=
  if m = s then already.erase (base m) else insert (base m) already

/-- What is in the set after a round. -/
lemma mem_afterRound_iff {m s : PacketId} {b : PacketBase} :
    b ∈ afterRound m s already ↔ base m = b ∧ m ≠ s ∨ base m ≠ b ∧ b ∈ already := by
  rw [afterRound]
  split_ifs with h
  · simp [h, eq_comm]
  · rw [Finset.mem_insert]
    by_cases hb : base m = b
    · simp [h, hb]
    · simp [hb, Ne.symm hb]

lemma marked_zero_iff {b : PacketBase} : Marked master slave already 0 b ↔ b ∈ already := by
  simp [Marked]

/-- A round later, the set is that after the first round. -/
lemma marked_succ_iff {m s : PacketId} {k : ℕ} {b : PacketBase} :
    Marked (m :: master) (s :: slave) already (k + 1) b ↔
      Marked master slave (afterRound m s already) k b := by
  constructor
  · rintro (⟨i, hi, m', hm', hbase, hne, hlast⟩ | ⟨hb, hnone⟩)
    · cases i with
      | zero =>
          obtain rfl : m = m' := by simpa using hm'
          refine .inr ⟨mem_afterRound_iff.mpr (.inl ⟨hbase, ?_⟩), fun j m'' hj hm'' => ?_⟩
          · exact fun h => hne (by simp [h])
          · exact hlast (j + 1) m'' (Nat.succ_pos j) (by omega) (by simpa using hm'')
      | succ i =>
          refine .inl ⟨i, by omega, m', by simpa using hm', hbase, by simpa using hne, ?_⟩
          intro j m'' hij hj hm''
          exact hlast (j + 1) m'' (by omega) (by omega) (by simpa using hm'')
    · have hfirst : base m ≠ b := hnone 0 m (Nat.succ_pos k) rfl
      refine .inr ⟨mem_afterRound_iff.mpr (.inr ⟨hfirst, hb⟩), fun j m'' hj hm'' => ?_⟩
      exact hnone (j + 1) m'' (by omega) (by simpa using hm'')
  · rintro (⟨i, hi, m', hm', hbase, hne, hlast⟩ | ⟨hb, hnone⟩)
    · refine .inl ⟨i + 1, by omega, m', by simpa using hm', hbase, by simpa using hne, ?_⟩
      intro j m'' hij hj hm''
      cases j with
      | zero => omega
      | succ j => exact hlast j m'' (by omega) (by omega) (by simpa using hm'')
    · have hlater (j : ℕ) (m'' : PacketId) (hj : j + 1 < k + 1)
          (hm'' : (m :: master)[j + 1]? = some m'') : base m'' ≠ b :=
        hnone j m'' (by omega) (by simpa using hm'')
      rcases mem_afterRound_iff.mp hb with ⟨hbase, hne⟩ | ⟨hbase, hold⟩
      · refine .inl ⟨0, Nat.succ_pos k, m, rfl, hbase, by simpa using Ne.symm hne, ?_⟩
        intro j m'' hpos hj hm''
        cases j with
        | zero => exact absurd hpos (lt_irrefl 0)
        | succ j => exact hlater j m'' hj hm''
      · refine .inr ⟨hold, fun j m'' hj hm'' => ?_⟩
        cases j with
        | zero =>
            obtain rfl : m = m'' := by simpa using hm''
            exact hbase
        | succ j => exact hlater j m'' hj hm''

/-- Nothing is omitted in the first round, and nothing later. -/
lemma nothingOmitted_cons_iff {m s : PacketId} :
    NothingOmitted (m :: master) (s :: slave) already ↔
      (m ≠ s → base m ∉ already) ∧ NothingOmitted master slave (afterRound m s already) := by
  constructor
  · refine fun h => ⟨fun hne hold => h 0 m s rfl rfl hne (marked_zero_iff.mpr hold), ?_⟩
    intro k m' s' hm' hs' hne hmarked
    exact h (k + 1) m' s' (by simpa using hm') (by simpa using hs') hne
      (marked_succ_iff.mpr hmarked)
  · rintro ⟨hfirst, hrest⟩ k m' s' hm' hs' hne hmarked
    cases k with
    | zero =>
        obtain rfl : m = m' := by simpa using hm'
        obtain rfl : s = s' := by simpa using hs'
        exact hfirst hne (marked_zero_iff.mp hmarked)
    | succ k =>
        exact hrest k m' s' (by simpa using hm') (by simpa using hs') hne
          (marked_succ_iff.mp hmarked)

end

/-- The walk passes only entries that it has read exactly when nothing is omitted. -/
lemma walk_reads_iff (master slave : List PacketId) (already : Finset PacketBase) :
    (∃ r, walk master slave already = some r ∧ ∀ entry ∈ r.1, entry.2 = true) ↔
      NothingOmitted master slave already := by
  fun_induction walk master slave already with
  | case1 slave already => simp [NothingOmitted]
  | case2 m master already => simp [NothingOmitted]
  | case3 master m slave already ih =>
      rw [nothingOmitted_cons_iff, ih, afterRound, if_pos rfl]
      simp
  | case4 m master s slave already hne hnew ih =>
      rw [nothingOmitted_cons_iff, afterRound, if_neg hne, ← ih, exists_map_eq_some_iff]
      simp [hnew]
  | case5 m s slave already hne hold => simp [nothingOmitted_cons_iff, hne, not_not.mp hold]
  | case6 m s slave already hne hold m' master ih =>
      rw [nothingOmitted_cons_iff, exists_map_eq_some_iff]
      simp [hne, not_not.mp hold]

/-- **The iterators.**  The loops of `getUnprocessedPacketIds` end without a move or a read
behind an end, and pass no packet of the master unread, exactly when no packet is omitted:
wherever the two lists have different packets, the base of the master's one is not in the set. -/
theorem iteratorSafe_iff (master slave : List PacketId) (already : Finset PacketBase) :
    IteratorSafe master slave already ↔ NothingOmitted master slave already :=
  (iteratorSafe_iff_walk master slave already).trans (walk_reads_iff master slave already)

/-- A packet that was replayed before, and that the slave does not have at its place, is
erased; when it is the last one, the iterator moves behind the end. -/
theorem not_iteratorSafe :
    ¬ ∀ (master slave : List PacketId) (already : Finset PacketBase),
      IteratorSafe master slave already := by
  intro h
  obtain ⟨r, hr, -⟩ := (iteratorSafe_iff_walk [33] [65] {1}).mp (h [33] [65] {1})
  have hnone : walk [33] [65] {1} = none := by decide
  rw [hnone] at hr
  exact absurd hr (by simp)

end CleanupManagerServer

end FtThesis
