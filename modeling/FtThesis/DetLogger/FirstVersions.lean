/-
The first version of each packet.

Of the processed ids of a middlebox, a reply can have those only that are the first ones of their
packets.

* `firstVersionRound`: a round of the loop, which writes an id behind the ones before it;
* `foldl_firstVersionRound`: the loop leaves the ids of the new bases in the buffer, and their
  number;
* `atFirstPlaces`: the ids at the places where a base comes for the first time;
* `FirstView`: what is to hold of the first versions of a list;
* `firstVersionView`: it holds of the reply, for every list.
-/
import FtThesis.DetLogger.Server

namespace FtThesis

open Memory

namespace DetLoggerServer

/-! ### The loop -/

/-- A round of the loop of `getProcessedPacketsForFirstVersion`, on the buffer, the index and the
set of the processed bases. -/
def firstVersionRound (s : Mem × ℕ × List PacketBase) (packetId : PacketId) :
    Mem × ℕ × List PacketBase :=
  let (returnValue, returnedValIndex, processedBases) := s
  if base packetId ∈ processedBases then s
  else
    (word64.put packetId returnValue (returnedValIndex * 8), returnedValIndex + 1,
      base packetId :: processedBases)

/-- The index is the number of the ids that are written, one behind the other. -/
lemma foldl_firstVersionRound (ids : List PacketId) (m : Mem) (k : ℕ) (bases : List PacketBase) :
    (ids.foldl firstVersionRound (m, k, bases)).1
        = word64.putList (firstVersions bases ids) m (k * 8) ∧
      (ids.foldl firstVersionRound (m, k, bases)).2.1
        = k + (firstVersions bases ids).length := by
  induction ids generalizing m k bases with
  | nil => exact ⟨rfl, rfl⟩
  | cons id ids ih =>
      rw [List.foldl_cons, firstVersions, firstVersionRound]
      split_ifs with hold
      · exact ih m k bases
      · obtain ⟨hbuffer, hindex⟩ := ih (word64.put id m (k * 8)) (k + 1) (base id :: bases)
        rw [hbuffer, hindex, Codec.putList, List.length_cons, Nat.add_mul, Nat.one_mul]
        exact ⟨rfl, by omega⟩

/-- The reply is what the loop leaves in the buffer. -/
theorem getList_firstVersionRound (spd : ServerProgressData) (retVal : Mem) :
    let s := (getProcessedPacketsForAllVersions spd).foldl firstVersionRound (retVal, 0, [])
    word64.getList s.2.1 s.1 0 = getProcessedPacketsForFirstVersion spd := by
  intro s
  obtain ⟨hbuffer, hindex⟩ :=
    foldl_firstVersionRound (getProcessedPacketsForAllVersions spd) retVal 0 []
  rw [Nat.zero_mul] at hbuffer
  rw [Nat.zero_add] at hindex
  simp only [s, hbuffer, hindex]
  exact word64.getList_putList _ _ _

/-! ### The first places -/

/-- The ids at the places where a base comes for the first time. -/
def atFirstPlaces (ids : List PacketId) : List PacketId :=
  (ids.zipIdx.filter fun place =>
    (ids.take place.2).all fun id => base id ≠ base place.1).map Prod.fst

/-- An id at the end is new if its base is none of those before. -/
lemma firstVersions_concat (bases : List PacketBase) (ids : List PacketId) (id : PacketId) :
    firstVersions bases (ids ++ [id]) =
      if base id ∈ bases ∨ base id ∈ ids.map base then firstVersions bases ids
      else firstVersions bases ids ++ [id] := by
  induction ids generalizing bases with
  | nil => by_cases h : base id ∈ bases <;> simp [firstVersions, h]
  | cons id₀ ids ih =>
      rw [List.cons_append, firstVersions, firstVersions, ih, ih]
      by_cases hold : base id₀ ∈ bases
      · have hiff : base id ∈ bases ∨ base id ∈ (id₀ :: ids).map base ↔
            base id ∈ bases ∨ base id ∈ ids.map base := by
          rw [List.map_cons, List.mem_cons]
          constructor
          · rintro (h | h | h)
            · exact .inl h
            · exact .inl (h ▸ hold)
            · exact .inr h
          · rintro (h | h)
            · exact .inl h
            · exact .inr (.inr h)
        simp only [if_pos hold, hiff]
      · have hiff : base id ∈ bases ∨ base id ∈ (id₀ :: ids).map base ↔
            base id ∈ base id₀ :: bases ∨ base id ∈ ids.map base := by
          rw [List.map_cons, List.mem_cons, List.mem_cons]
          tauto
        simp only [if_neg hold, hiff]
        split_ifs <;> rfl

lemma atFirstPlaces_concat (ids : List PacketId) (id : PacketId) :
    atFirstPlaces (ids ++ [id]) =
      if base id ∈ ids.map base then atFirstPlaces ids else atFirstPlaces ids ++ [id] := by
  have hbefore : (ids.zipIdx.filter fun place =>
        ((ids ++ [id]).take place.2).all fun id => base id ≠ base place.1)
      = ids.zipIdx.filter fun place =>
        (ids.take place.2).all fun id => base id ≠ base place.1 := by
    refine List.filter_congr fun place hplace => ?_
    have hlt : place.2 < ids.length := by
      simpa using (List.snd_lt_add_of_mem_zipIdx hplace)
    rw [List.take_append_of_le_length hlt.le]
  rw [atFirstPlaces, List.zipIdx_append, List.filter_append, hbefore, List.map_append,
    ← atFirstPlaces]
  by_cases hold : base id ∈ ids.map base
  · have hmem : ∃ x ∈ ids, base x = base id := by simpa using hold
    simp [hold, hmem]
  · have hnew : ∀ x ∈ ids, base x ≠ base id := by
      intro x hx heq
      exact hold (heq ▸ List.mem_map_of_mem hx)
    have hlast : ((ids ++ [id]).take ids.length).all (fun x => base x ≠ base id) = true := by
      rw [List.take_left]
      simpa using hnew
    rw [if_neg hold, List.zipIdx_singleton, List.filter_cons_of_pos (by simpa using hlast)]
    rfl

/-- The loop keeps the ids at the first places: behind each part of the list, the bases that it has
seen are those of this part. -/
lemma firstVersions_eq_atFirstPlaces (ids : List PacketId) :
    firstVersions [] ids = atFirstPlaces ids := by
  induction ids using List.reverseRecOn with
  | nil => rfl
  | append_singleton ids id ih =>
      rw [firstVersions_concat, atFirstPlaces_concat, ih]
      simp

/-- Each id has the first one of its packet in front of it, or is it. -/
lemma exists_isFirstLogged {ids : List PacketId} {id : PacketId} (h : id ∈ ids) :
    ∃ first, base first = base id ∧ IsFirstLogged ids first := by
  have hsome : (ids.find? fun x => base x = base id).isSome = true := by
    rw [List.find?_isSome]
    exact ⟨id, h, by simp⟩
  obtain ⟨first, hfirst⟩ := Option.isSome_iff_exists.mp hsome
  obtain ⟨hbase, before, after, hids, hbefore⟩ := List.find?_eq_some_iff_append.mp hfirst
  have heq : base first = base id := by simpa using hbase
  refine ⟨first, heq, before, after, hids, fun x hx => ?_⟩
  have hne := hbefore x hx
  rw [heq]
  simpa using hne

/-- The first id of a packet is kept, if its base is not one of those before the list. -/
lemma mem_firstVersions {bases : List PacketBase} {ids : List PacketId} {id : PacketId}
    (h : IsFirstLogged ids id) (hnew : base id ∉ bases) : id ∈ firstVersions bases ids := by
  obtain ⟨before, after, rfl, hbefore⟩ := h
  induction before generalizing bases with
  | nil =>
      rw [List.nil_append, firstVersions, if_neg hnew]
      exact List.mem_cons_self
  | cons id₀ before ih =>
      obtain ⟨hne, hrest⟩ := List.forall_mem_cons.mp hbefore
      rw [List.cons_append, firstVersions]
      split_ifs
      · exact ih hnew hrest
      · refine List.mem_cons_of_mem _ (ih (fun hmem => ?_) hrest)
        rcases List.mem_cons.mp hmem with heq | hmem
        · exact hne heq.symm
        · exact hnew hmem

/-! ### The view -/

/-- `first` has the ids of `ids` at the first places of their bases: a part of the list in its
order, with different bases, in which the earliest id of each packet is. -/
structure FirstView (ids first : List PacketId) : Prop where
  places : first = atFirstPlaces ids
  sublist : first.Sublist ids
  nodup : (first.map base).Nodup
  earliest : ∀ id ∈ ids, ∃ id' ∈ first, base id' = base id ∧ IsFirstLogged ids id'

/-- **The first versions.**  The reply with the first versions has the ids of the reply with all
versions at the first places of their bases. -/
theorem firstVersionView (spd : ServerProgressData) :
    FirstView (getProcessedPacketsForAllVersions spd) (getProcessedPacketsForFirstVersion spd) where
  places := firstVersions_eq_atFirstPlaces _
  sublist := firstVersions_sublist _ _
  nodup := (firstVersions_nodup _ _).1
  earliest := fun _ hid => by
    obtain ⟨first, hbase, hfirst⟩ := exists_isFirstLogged hid
    exact ⟨first, mem_firstVersions hfirst List.not_mem_nil, hbase, hfirst⟩

end DetLoggerServer

end FtThesis
