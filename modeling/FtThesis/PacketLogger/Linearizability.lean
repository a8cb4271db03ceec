/-
The packet logger under operations that run at the same time is the packet logger under one
operation after the other.

* `Unheld`: no operation looks up a record that is freed but still in the map, no record is freed
  while another operation holds it, and the map is not changed while a store reads it without its
  lock; `Live`: a section works on a record that is not freed;
* `Inv`, `Matches`: what the condition keeps of the state, and how the state stands to one of
  `PacketLoggerServer`;
* `Simulates`, `step_spec`: one section does to the server what its operation does if this takes
  effect in it;
* `operations_linearizable`: in a run that meets the condition no section works on a freed record,
  and the operations, in the order in which they take effect, are a run of `PacketLoggerServer`.
-/
import FtThesis.PacketLogger.Sections

namespace FtThesis

open Memory Transition

/-- One operation of the server, with its answer. -/
def PacketLoggerServer.Answers (srt : VersionSort) (u : PacketLoggerServer) :
    PacketOperation × PacketAnswer → PacketLoggerServer → Prop
  | (.store wpd, .stored), v => v = u.processStoreRequest wpd
  | (.get packId retVal, .packet reply len), v =>
      (reply, len) = (u.getPacket srt packId retVal).2 ∧ v = u
  | (.delete packId, .deleted result), v => (result, v) = u.deletePacket packId
  | _, _ => False

namespace LoggerSections

/-! ### The condition and the invariant -/

/-- The record of no packet with the given base is freed but still in the map. -/
def NoneErased (s : LoggerSections) (b : PacketBase) : Prop :=
  ∀ r packId pvd, s.operations r = .erasing packId pvd → base packId ≠ b

/-- No operation reads the map without its lock. -/
def Unread (s : LoggerSections) : Prop := ∀ r, (s.operations r).ReadsMap = false

/-- No operation looks up a record that is freed but still in the map; no record is freed while
another operation holds it; and no record is put into the map or taken out of it while an operation
reads the map without its lock. -/
def Unheld (s : LoggerSections) : Section → Prop
  | .getOrCreate r => ∀ wpd, s.operations r = .counted wpd → s.NoneErased (base wpd.packetId) ∧
      (s.packetsVersions (base wpd.packetId) = none → s.Unread)
  | .find _ packId _ | .lookup _ packId => s.NoneErased (base packId)
  | .erase _ => s.Unread
  | .clear r => ∀ packId pvd record, s.operations r = .deleting packId pvd →
      s.memory pvd = some record → record.index.toNat ≤ version packId →
        ∀ r' b, r' ≠ r → (s.operations r').holds ≠ some (b, pvd)
  | _ => True

/-- A section that works on a record works on one that is not freed. -/
def Live (s : LoggerSections) : Section → Prop
  | .addVersion r | .copyVersions r | .clear r =>
      ∀ b pvd, (s.operations r).holds = some (b, pvd) → ¬ (s.operations r).Erases →
        (s.memory pvd).isSome
  | _ => True

/-- What holds in every run that meets the condition. -/
structure Inv (s : LoggerSections) : Prop where
  holds : ∀ r b pvd, (s.operations r).holds = some (b, pvd) → s.packetsVersions b = some pvd
  live : ∀ b pvd, s.packetsVersions b = some pvd → pvd < s.nextAddress ∧
    ((s.memory pvd).isSome ∨ ∃ r packId, s.operations r = .erasing packId pvd)
  distinct : ∀ b b' pvd, s.packetsVersions b = some pvd → s.packetsVersions b' = some pvd → b = b'
  erasing : ∀ r packId pvd, s.operations r = .erasing packId pvd → s.memory pvd = none ∧
    ∀ r' b, r' ≠ r → (s.operations r').holds ≠ some (b, pvd)
  index : ∀ pvd record, s.memory pvd = some record → record.packetVersions = [] → record.index = 0

lemma inv_new : Inv new where
  holds _ _ _ h := by cases h
  live _ _ h := by cases h
  distinct _ _ _ h := by cases h
  erasing _ _ _ h := by cases h
  index _ _ h := by cases h

/-- The record of a base, if there is a fragment in it. -/
def record (s : LoggerSections) (b : PacketBase) : Option PacketVersionsData :=
  ((s.packetsVersions b).bind s.memory).filter fun record => record.packetVersions ≠ []

/-- The server has the records that are not empty. -/
def Matches (s : LoggerSections) (u : PacketLoggerServer) : Prop :=
  ∀ b, u.packetsVersions b = s.record b

lemma matches_new : new.Matches .new := fun _ => rfl

variable {s t : LoggerSections} {u : PacketLoggerServer} {r : ℕ} {p : PacketPhase} {b : PacketBase}
  {pvd : ℕ} {record : PacketVersionsData} {wpd : WrappedPacketData} {packId : PacketId}
  {retVal : Mem} {srt : VersionSort}

lemma record_of_memory (hmap : s.packetsVersions b = some pvd) (hmem : s.memory pvd = some record) :
    s.record b = if record.packetVersions = [] then none else some record := by
  rw [LoggerSections.record, hmap, Option.bind_some, hmem, Option.filter_some]
  by_cases h : record.packetVersions = [] <;> simp [h]

lemma record_of_none (hmap : s.packetsVersions b = none) : s.record b = none := by
  rw [LoggerSections.record, hmap]
  rfl

lemma record_of_freed (hmap : s.packetsVersions b = some pvd) (hmem : s.memory pvd = none) :
    s.record b = none := by
  rw [LoggerSections.record, hmap, Option.bind_some, hmem]
  rfl

/-! ### Operations that come to another phase -/

/-- An operation that does not erase its record comes to another phase of this kind, in which it
holds no record or one that is not freed. -/
lemma Inv.setOperation (hs : Inv s) (hold : ¬ (s.operations r).Erases) (hnew : ¬ p.Erases)
    (hholds : ∀ b pvd, p.holds = some (b, pvd) → s.packetsVersions b = some pvd ∧
      (s.memory pvd).isSome) : Inv (s.setOperation r p) where
  holds r' b pvd h := by
    rcases s.cases_setOperation r p r' with ⟨-, heq⟩ | ⟨-, heq⟩
    · exact (hholds b pvd (heq ▸ h)).1
    · exact hs.holds r' b pvd (heq ▸ h)
  live b pvd hmap := by
    obtain ⟨hlt, h | ⟨r', packId, h⟩⟩ := hs.live b pvd hmap
    · exact ⟨hlt, .inl h⟩
    · refine ⟨hlt, .inr ⟨r', packId, ?_⟩⟩
      rcases s.cases_setOperation r p r' with ⟨rfl, -⟩ | ⟨-, heq⟩
      · exact absurd ⟨packId, pvd, h⟩ hold
      · rw [heq, h]
  distinct := hs.distinct
  erasing r' packId pvd h := by
    rcases s.cases_setOperation r p r' with ⟨-, heq⟩ | ⟨-, heq⟩
    · exact absurd ⟨packId, pvd, heq ▸ h⟩ hnew
    · obtain ⟨hmem, hothers⟩ := hs.erasing r' packId pvd (heq ▸ h)
      refine ⟨hmem, fun r'' b hne hb => ?_⟩
      rcases s.cases_setOperation r p r'' with ⟨-, heq'⟩ | ⟨-, heq'⟩
      · obtain ⟨-, hsome⟩ := hholds b pvd (heq' ▸ hb)
        rw [hmem] at hsome
        cases hsome
      · exact hothers r'' b hne (heq' ▸ hb)
  index := hs.index

/-- The operation ends. -/
lemma Inv.answer (hs : Inv s) (hold : ¬ (s.operations r).Erases) (operation : PacketOperation)
    (ans : PacketAnswer) : Inv (s.setOperation r (.answered operation ans)) :=
  hs.setOperation hold (by rintro ⟨_, _, h⟩; cases h) nofun

/-- The record of a base that is found is not freed. -/
lemma Inv.isSome_of_noneErased (hs : Inv s) (hmap : s.packetsVersions b = some pvd)
    (hnone : s.NoneErased b) : (s.memory pvd).isSome := by
  obtain ⟨-, h | ⟨r, packId, h⟩⟩ := hs.live b pvd hmap
  · exact h
  · have hown := hs.holds r (base packId) pvd (by rw [h]; rfl)
    exact absurd (hs.distinct _ _ pvd hown hmap) (hnone r packId pvd h)

/-- A record that is held by an operation that does not erase it is not freed. -/
lemma Inv.isSome_of_holds (hs : Inv s) (hholds : (s.operations r).holds = some (b, pvd))
    (hold : ¬ (s.operations r).Erases) : (s.memory pvd).isSome := by
  obtain ⟨-, h | ⟨r', packId, h⟩⟩ := hs.live b pvd (hs.holds r b pvd hholds)
  · exact h
  · refine absurd hholds ((hs.erasing r' packId pvd h).2 r b ?_)
    rintro rfl
    exact hold ⟨packId, pvd, h⟩

lemma Inv.isLive (hs : Inv s) (a : Section) : s.Live a := by
  cases a with
  | addVersion r | copyVersions r | clear r => exact fun b pvd => hs.isSome_of_holds
  | _ => trivial

/-! ### Stores -/

lemma Inv.createRecord (hs : Inv s) (hmap : s.packetsVersions b = none) :
    Inv (s.createRecord b) where
  holds r b' pvd h := by
    have hown := hs.holds r b' pvd h
    have hne : b' ≠ b := by
      rintro rfl
      rw [hmap] at hown
      cases hown
    exact (Function.update_of_ne hne ..).trans hown
  live b' pvd h := by
    rcases eq_or_ne b' b with rfl | hne
    · obtain rfl : s.nextAddress = pvd := by
        simpa [LoggerSections.createRecord] using h
      exact ⟨Nat.lt_succ_self _, .inl (by simp [LoggerSections.createRecord])⟩
    · have hold : s.packetsVersions b' = some pvd := (Function.update_of_ne hne ..).symm.trans h
      obtain ⟨hlt, hsome⟩ := hs.live b' pvd hold
      refine ⟨Nat.lt_succ_of_lt hlt, hsome.imp_left fun h => ?_⟩
      simpa [LoggerSections.createRecord, hlt.ne] using h
  distinct b₁ b₂ pvd h₁ h₂ := by
    have hfresh : ∀ b', s.packetsVersions b' ≠ some s.nextAddress := fun b' h =>
      (hs.live b' _ h).1.ne rfl
    simp only [LoggerSections.createRecord, Function.update_apply] at h₁ h₂
    split_ifs at h₁ h₂ with hb₁ hb₂ hb₂
    · rw [hb₁, hb₂]
    · exact absurd (h₁ ▸ h₂) (hfresh b₂)
    · exact absurd (h₂ ▸ h₁) (hfresh b₁)
    · exact hs.distinct b₁ b₂ pvd h₁ h₂
  erasing r packId pvd h := by
    obtain ⟨hmem, hothers⟩ := hs.erasing r packId pvd h
    have hphase : s.operations r = .erasing packId pvd := h
    have hlt := (hs.live _ pvd (hs.holds r (base packId) pvd (by rw [hphase]; rfl))).1
    exact ⟨(Function.update_of_ne hlt.ne ..).trans hmem, hothers⟩
  index pvd record h hempty := by
    simp only [LoggerSections.createRecord, Function.update_apply] at h
    split_ifs at h
    · obtain rfl := Option.some.inj h
      rfl
    · exact hs.index pvd record h hempty

lemma Matches.createRecord (hu : s.Matches u) (hs : Inv s) (hmap : s.packetsVersions b = none) :
    (s.createRecord b).Matches u := by
  intro b'
  rw [hu b']
  rcases eq_or_ne b' b with rfl | hne
  · rw [record_of_none hmap]
    have hfound : (s.createRecord b').packetsVersions b' = some s.nextAddress :=
      Function.update_self ..
    have hempty : (s.createRecord b').memory s.nextAddress = some ⟨[], 0⟩ :=
      Function.update_self ..
    exact (record_of_memory hfound hempty).symm
  · rw [LoggerSections.record, LoggerSections.record]
    have hsame : (s.createRecord b).packetsVersions b' = s.packetsVersions b' :=
      Function.update_of_ne hne ..
    rw [hsame]
    cases hb : s.packetsVersions b' with
    | none => rfl
    | some pvd =>
        have hlt := (hs.live b' pvd hb).1
        simp [LoggerSections.createRecord, hlt.ne]

/-- A record that is not freed is written. -/
lemma Inv.setRecord (hs : Inv s) (hsome : (s.memory pvd).isSome)
    (hne : record.packetVersions ≠ []) : Inv (s.setRecord pvd (some record)) where
  holds := hs.holds
  live b pvd' h := by
    obtain ⟨hlt, h⟩ := hs.live b pvd' h
    refine ⟨hlt, h.imp_left fun h => ?_⟩
    rw [memory_setRecord]
    split_ifs
    · rfl
    · exact h
  distinct := hs.distinct
  erasing r packId pvd' h := by
    obtain ⟨hmem, hothers⟩ := hs.erasing r packId pvd' h
    have hne : pvd' ≠ pvd := by
      rintro rfl
      rw [hmem] at hsome
      cases hsome
    exact ⟨(Function.update_of_ne hne ..).trans hmem, hothers⟩
  index pvd' record' h hempty := by
    rw [memory_setRecord] at h
    split_ifs at h
    · obtain rfl := Option.some.inj h
      exact absurd hempty hne
    · exact hs.index pvd' record' h hempty

/-- The records of the other bases stay as they are. -/
lemma record_setRecord_of_ne (hs : Inv s) (hmap : s.packetsVersions b = some pvd)
    {record : Option PacketVersionsData} {b' : PacketBase} (hne : b' ≠ b) :
    (s.setRecord pvd record).record b' = s.record b' := by
  rw [LoggerSections.record, LoggerSections.record]
  have hsame : (s.setRecord pvd record).packetsVersions = s.packetsVersions := rfl
  rw [hsame]
  cases hb : s.packetsVersions b' with
  | none => rfl
  | some pvd' =>
      have hpvd : pvd' ≠ pvd := by
        rintro rfl
        exact hne (hs.distinct b' b _ hb hmap)
      rw [Option.bind_some, Option.bind_some, memory_setRecord, if_neg hpvd]

/-- A store takes effect when its fragment is added. -/
lemma Matches.addVersion (hu : s.Matches u) (hs : Inv s)
    (hmap : s.packetsVersions (base wpd.packetId) = some pvd) (hmem : s.memory pvd = some record) :
    (s.setRecord pvd (some (PacketLoggerServer.addPacketVersion record wpd))).Matches
      (u.processStoreRequest wpd) := by
  have hold : (u.packetsVersions (base wpd.packetId)).getD ⟨[], 0⟩ = record := by
    rw [hu, record_of_memory hmap hmem]
    split_ifs with hempty
    · obtain ⟨versions, index⟩ := record
      obtain rfl : versions = [] := hempty
      obtain rfl : index = 0 := hs.index pvd _ hmem rfl
      rfl
    · rfl
  intro b
  rw [PacketLoggerServer.processStoreRequest]
  simp only [hold]
  rcases eq_or_ne b (base wpd.packetId) with rfl | hne
  · have hwritten : (s.setRecord pvd (some (PacketLoggerServer.addPacketVersion record wpd))).memory
        pvd = some (PacketLoggerServer.addPacketVersion record wpd) := by
      rw [memory_setRecord, if_pos rfl]
    have hfull : (PacketLoggerServer.addPacketVersion record wpd).packetVersions ≠ [] := by
      simp [PacketLoggerServer.addPacketVersion]
    have hrecord := record_of_memory (b := base wpd.packetId) (s := s.setRecord pvd _) hmap hwritten
    rw [Function.update_self, hrecord, if_neg hfull]
  · rw [Function.update_of_ne hne, record_setRecord_of_ne hs hmap hne, hu]

/-! ### Deletions -/

/-- A record that no other operation holds is freed. -/
lemma Inv.clear (hs : Inv s) (hr : s.operations r = .deleting packId pvd)
    (hothers : ∀ r' b, r' ≠ r → (s.operations r').holds ≠ some (b, pvd)) :
    Inv ((s.setRecord pvd none).setOperation r (.erasing packId pvd)) where
  holds r' b pvd' h := by
    rcases (s.setRecord pvd none).cases_setOperation r (.erasing packId pvd) r' with
      ⟨rfl, heq⟩ | ⟨-, heq⟩
    · refine hs.holds r' b pvd' ?_
      rw [heq] at h
      rw [hr]
      exact h
    · exact hs.holds r' b pvd' (heq ▸ h)
  live b pvd' hmap := by
    obtain ⟨hlt, h⟩ := hs.live b pvd' hmap
    refine ⟨hlt, ?_⟩
    rcases eq_or_ne pvd' pvd with rfl | hne
    · exact .inr ⟨r, packId, operations_setOperation_self ..⟩
    · refine h.imp (fun h => ?_) fun ⟨r', packId', h⟩ => ⟨r', packId', ?_⟩
      · rwa [memory_setOperation, memory_setRecord, if_neg hne]
      · rcases (s.setRecord pvd none).cases_setOperation r (.erasing packId pvd) r' with
          ⟨rfl, -⟩ | ⟨-, heq⟩
        · rw [hr] at h
          cases h
        · exact heq.trans h
  distinct := hs.distinct
  erasing r' packId' pvd' h := by
    rcases (s.setRecord pvd none).cases_setOperation r (.erasing packId pvd) r' with
      ⟨rfl, heq⟩ | ⟨hne, heq⟩
    · rw [heq] at h
      cases h
      refine ⟨by rw [memory_setOperation, memory_setRecord, if_pos rfl], fun r'' b hne hb => ?_⟩
      rcases (s.setRecord pvd none).cases_setOperation r' (.erasing packId pvd) r'' with
        ⟨h, -⟩ | ⟨-, heq'⟩
      · exact hne h
      · exact hothers r'' b hne (heq' ▸ hb)
    · obtain ⟨hmem, hfree⟩ := hs.erasing r' packId' pvd' (heq.symm.trans h)
      refine ⟨?_, fun r'' b hne' hb => ?_⟩
      · rw [memory_setOperation, memory_setRecord]
        split_ifs
        · rfl
        · exact hmem
      · rcases (s.setRecord pvd none).cases_setOperation r (.erasing packId pvd) r'' with
          ⟨rfl, heq'⟩ | ⟨-, heq'⟩
        · rw [heq'] at hb
          refine hfree r'' b hne' ?_
          rw [hr]
          exact hb
        · exact hfree r'' b hne' (heq' ▸ hb)
  index pvd' record' h hempty := by
    rw [memory_setOperation, memory_setRecord] at h
    split_ifs at h
    exact hs.index pvd' record' h hempty

/-- A deletion takes effect when the record is freed. -/
lemma Matches.clear (hu : s.Matches u) (hs : Inv s)
    (hmap : s.packetsVersions (base packId) = some pvd) (hmem : s.memory pvd = some record)
    (hall : ¬ version packId < record.index.toNat) :
    ∃ v, (true, v) = u.deletePacket packId ∧ (s.setRecord pvd none).Matches v := by
  have hfreed : (s.setRecord pvd none).record (base packId) = none :=
    record_of_freed hmap (by rw [memory_setRecord, if_pos rfl])
  have hu' := hu (base packId)
  rw [record_of_memory hmap hmem] at hu'
  rw [PacketLoggerServer.deletePacket, hu']
  split_ifs with hempty
  · refine ⟨u, rfl, fun b => ?_⟩
    rcases eq_or_ne b (base packId) with rfl | hne
    · rw [hfreed, hu', if_pos hempty]
    · rw [record_setRecord_of_ne hs hmap hne, hu]
  · simp only [hall, if_false]
    refine ⟨_, rfl, fun b => ?_⟩
    rcases eq_or_ne b (base packId) with rfl | hne
    · rw [hfreed]
      exact Function.update_self ..
    · rw [record_setRecord_of_ne hs hmap hne, ← hu]
      exact Function.update_of_ne hne ..

/-- A record that is freed is taken out of the map. -/
lemma Inv.erase (hs : Inv s) (hr : s.operations r = .erasing packId pvd) :
    Inv (s.erase r packId) := by
  have hown : s.packetsVersions (base packId) = some pvd :=
    hs.holds r _ pvd (by rw [hr]; rfl)
  obtain ⟨-, hothers⟩ := hs.erasing r packId pvd hr
  have hmap : ∀ b, b ≠ base packId → (s.erase r packId).packetsVersions b = s.packetsVersions b :=
    fun b hne => Function.update_of_ne hne ..
  have hnone : (s.erase r packId).packetsVersions (base packId) = none := Function.update_self ..
  have hphase : ∀ r', r' ≠ r → (s.erase r packId).operations r' = s.operations r' :=
    fun r' hne => Function.update_of_ne hne ..
  have hended : (s.erase r packId).operations r = .answered (.delete packId) (.deleted true) :=
    Function.update_self ..
  refine ⟨fun r' b pvd' h => ?_, fun b pvd' h => ?_, fun b b' pvd' h h' => ?_,
    fun r' packId' pvd' h => ?_, hs.index⟩
  · rcases eq_or_ne r' r with rfl | hne
    · rw [hended] at h
      cases h
    · rw [hphase r' hne] at h
      have hb := hs.holds r' b pvd' h
      rw [hmap b, hb]
      rintro rfl
      rw [hown] at hb
      obtain rfl := Option.some.inj hb
      exact hothers r' _ hne h
  · have hb : b ≠ base packId := by
      rintro rfl
      rw [hnone] at h
      cases h
    rw [hmap b hb] at h
    obtain ⟨hlt, hsome | ⟨r', packId', hr'⟩⟩ := hs.live b pvd' h
    · exact ⟨hlt, .inl hsome⟩
    · refine ⟨hlt, .inr ⟨r', packId', ?_⟩⟩
      rw [hphase r', hr']
      rintro rfl
      rw [hr] at hr'
      cases hr'
      exact hb (hs.distinct _ _ _ h hown)
  · have hb : ∀ b'', (s.erase r packId).packetsVersions b'' = some pvd' →
        s.packetsVersions b'' = some pvd' := fun b'' h'' => by
      rcases eq_or_ne b'' (base packId) with rfl | hne
      · rw [hnone] at h''
        cases h''
      · rwa [hmap b'' hne] at h''
    exact hs.distinct b b' pvd' (hb b h) (hb b' h')
  · rcases eq_or_ne r' r with rfl | hne
    · rw [hended] at h
      cases h
    · rw [hphase r' hne] at h
      obtain ⟨hmem, hfree⟩ := hs.erasing r' packId' pvd' h
      refine ⟨hmem, fun r'' b hne' hb => ?_⟩
      rcases eq_or_ne r'' r with rfl | hr''
      · rw [hended] at hb
        cases hb
      · rw [hphase r'' hr''] at hb
        exact hfree r'' b hne' hb

lemma Matches.erase (hu : s.Matches u) (hs : Inv s) (hr : s.operations r = .erasing packId pvd) :
    (s.erase r packId).Matches u := by
  have hown : s.packetsVersions (base packId) = some pvd :=
    hs.holds r _ pvd (by rw [hr]; rfl)
  intro b
  rcases eq_or_ne b (base packId) with rfl | hne
  · rw [hu, record_of_freed hown (hs.erasing r packId pvd hr).1, record_of_none]
    exact Function.update_self ..
  · rw [hu, LoggerSections.record, LoggerSections.record]
    have hsame : (s.erase r packId).packetsVersions b = s.packetsVersions b :=
      Function.update_of_ne hne ..
    rw [hsame]
    rfl

/-! ### One section -/

/-- A packet that is read off the record of its base is that of the server. -/
lemma Matches.getPacket (hu : s.Matches u) (hs : Inv s)
    (hmap : s.packetsVersions (base packId) = some pvd) (hmem : s.memory pvd = some record)
    (retVal : Mem) : copyAll srt record packId retVal = (u.getPacket srt packId retVal).2 := by
  rw [PacketLoggerServer.getPacket, hu, record_of_memory hmap hmem]
  split_ifs with hempty
  · obtain ⟨versions, index⟩ := record
    obtain rfl : versions = [] := hempty
    obtain rfl : index = 0 := hs.index pvd _ hmem rfl
    have hnone : PacketLoggerServer.usedVersions srt ⟨[], 0⟩ (version packId) = [] := by
      simp [PacketLoggerServer.usedVersions]
    rw [copyAll, hnone]
    rfl
  · rfl

/-- The operations that have taken effect. -/
def committed (s : LoggerSections) (r : ℕ) : Option (PacketOperation × PacketAnswer) :=
  (s.operations r).committed

lemma commits_of_none (ht : t.operations = (s.setOperation r p).operations)
    (h : p.committed = (s.operations r).committed) : Commits committed s none t :=
  Commits.of_none LoggerSections.operations PacketPhase.committed ht h

lemma commits_of_some {b : PacketOperation × PacketAnswer}
    (ht : t.operations = (s.setOperation r p).operations) (hold : (s.operations r).committed = none)
    (hnew : p.committed = some b) : Commits committed s (some (r, b)) t :=
  Commits.of_some LoggerSections.operations PacketPhase.committed ht hold hnew

/-- A section keeps the invariant, and does to the server what the operation does that takes effect
in it, if one does. -/
structure Simulates (srt : VersionSort) (s : LoggerSections) (u : PacketLoggerServer)
    (e : Option Event) (t : LoggerSections) : Prop where
  inv : Inv t
  answers : ∃ v, Run (fun u (e : Event) => u.Answers srt e.2) u e.toList v ∧ t.Matches v
  commits : Commits committed s e t

section

variable {e : Option Event} (hs : Inv s) (hu : s.Matches u)

include hs hu

/-- An operation that is answered and does not change the records. -/
lemma answer_spec {operation : PacketOperation} {ans : PacketAnswer}
    (hanswers : u.Answers srt (operation, ans) u) (hcommitted : (s.operations r).committed = none)
    (h : s.answer r operation ans = some (t, e)) : Simulates srt s u e t := by
  obtain ⟨rfl, rfl⟩ := Prod.mk.inj (Option.some.inj h)
  have hold : ¬ (s.operations r).Erases := by
    rintro ⟨packId, pvd, hr⟩
    rw [hr] at hcommitted
    cases hcommitted
  exact ⟨hs.answer hold operation ans, ⟨u, .single hanswers, hu⟩,
    commits_of_some rfl hcommitted rfl⟩

/-- An operation that has found its record. -/
lemma found_spec (hold : ¬ (s.operations r).Erases) (hp : p.holds = some (b, pvd))
    (hnew : ¬ p.Erases) (hcommitted : p.committed = (s.operations r).committed)
    (hmap : s.packetsVersions b = some pvd) (hnone : s.NoneErased b) :
    Simulates srt s u none (s.setOperation r p) := by
  refine ⟨hs.setOperation hold hnew fun b' pvd' h => ?_, ⟨u, .nil, hu⟩,
    commits_of_none rfl hcommitted⟩
  obtain ⟨rfl, rfl⟩ := Prod.mk.inj (Option.some.inj (hp.symm.trans h))
  exact ⟨hmap, hs.isSome_of_noneErased hmap hnone⟩

/-- A read without a lock begins or ends. -/
lemma unlocked_spec (hold : ¬ (s.operations r).Erases) (hholds : p.holds = none) (hnew : ¬ p.Erases)
    (hcommitted : p.committed = (s.operations r).committed) :
    Simulates srt s u none (s.setOperation r p) := by
  refine ⟨hs.setOperation hold hnew fun b pvd h => ?_, ⟨u, .nil, hu⟩,
    commits_of_none rfl hcommitted⟩
  rw [hholds] at h
  cases h

lemma getOrCreate_spec (hr : s.operations r = .counted wpd)
    (hnone : s.NoneErased (base wpd.packetId)) :
    Simulates srt s u none (s.getOrCreate r wpd) := by
  have hnew : ∀ pvd, ¬ (PacketPhase.storing wpd pvd).Erases := by
    rintro pvd ⟨_, _, h⟩
    cases h
  rw [getOrCreate]
  split
  next hmap =>
    have hold : ¬ ((s.createRecord (base wpd.packetId)).operations r).Erases := by
      rintro ⟨_, _, h⟩
      rw [show (s.createRecord (base wpd.packetId)).operations r = .counted wpd from hr] at h
      cases h
    refine ⟨(hs.createRecord hmap).setOperation hold (hnew _) fun b pvd h => ?_,
      ⟨u, .nil, hu.createRecord hs hmap⟩, commits_of_none rfl (by rw [hr]; rfl)⟩
    obtain ⟨rfl, rfl⟩ := Prod.mk.inj (Option.some.inj h)
    simp [createRecord]
  next pvd hmap =>
    refine found_spec hs hu ?_ rfl (hnew pvd) (by rw [hr]; rfl) hmap hnone
    rintro ⟨_, _, h⟩
    rw [hr] at h
    cases h

lemma addVersion_spec (hr : s.operations r = .storing wpd pvd) :
    Simulates srt s u (some (r, .store wpd, .stored)) (s.addVersion r wpd pvd) := by
  have hholds : (s.operations r).holds = some (base wpd.packetId, pvd) := by rw [hr]; rfl
  have hold : ¬ (s.operations r).Erases := by
    rintro ⟨_, _, h⟩
    rw [hr] at h
    cases h
  have hmap := hs.holds r _ pvd hholds
  have hsome := hs.isSome_of_holds hholds hold
  obtain ⟨record, hmem⟩ := Option.isSome_iff_exists.mp hsome
  have hne : (PacketLoggerServer.addPacketVersion record wpd).packetVersions ≠ [] := by
    simp [PacketLoggerServer.addPacketVersion]
  rw [addVersion, hmem, Option.getD_some]
  have hadded : ¬ (PacketPhase.added wpd).Erases := by
    rintro ⟨_, _, h⟩
    cases h
  exact ⟨(hs.setRecord hsome hne).setOperation hold hadded (fun _ _ h => by cases h),
    ⟨_, .single rfl, hu.addVersion hs hmap hmem⟩, commits_of_some rfl (by rw [hr]; rfl) rfl⟩

/-- A packet or a deletion whose record is not there. -/
lemma answer_none_spec {operation : PacketOperation} {ans : PacketAnswer}
    (hr : s.operations r = .idle) (hanswers : u.Answers srt (operation, ans) u)
    (h : s.answer r operation ans = some (t, e)) : Simulates srt s u e t :=
  answer_spec hs hu hanswers (by rw [hr]; rfl) h

lemma find_spec (hr : s.operations r = .idle) (hnone : s.NoneErased (base packId))
    (h : Steps srt s (.find r packId retVal, e) t) : Simulates srt s u e t := by
  simp only [Steps, step, hr] at h
  split at h
  next hmap =>
    have hanswers : u.Answers srt (.get packId retVal, .packet retVal 0) u := by
      refine ⟨?_, rfl⟩
      rw [PacketLoggerServer.getPacket, hu, record_of_none hmap]
    exact answer_none_spec hs hu hr hanswers h
  next pvd hmap =>
    obtain ⟨rfl, rfl⟩ := Prod.mk.inj (Option.some.inj h)
    refine found_spec hs hu ?_ rfl (by rintro ⟨_, _, h⟩; cases h) (by rw [hr]; rfl) hmap hnone
    rintro ⟨_, _, h⟩
    rw [hr] at h
    cases h

lemma copyVersions_spec (hr : s.operations r = .reading packId retVal pvd)
    (h : Steps srt s (.copyVersions r, e) t) : Simulates srt s u e t := by
  have hholds : (s.operations r).holds = some (base packId, pvd) := by rw [hr]; rfl
  have hold : ¬ (s.operations r).Erases := by
    rintro ⟨_, _, h⟩
    rw [hr] at h
    cases h
  obtain ⟨record, hmem⟩ := Option.isSome_iff_exists.mp (hs.isSome_of_holds hholds hold)
  simp only [Steps, step, hr, hmem, Option.getD_some] at h
  set reply := copyAll srt record packId retVal with hreply
  have hanswers : u.Answers srt (.get packId retVal, .packet reply.1 reply.2) u :=
    ⟨hreply ▸ hu.getPacket hs (hs.holds r _ pvd hholds) hmem retVal, rfl⟩
  exact answer_spec hs hu hanswers (by rw [hr]; rfl) h

lemma lookup_spec (hr : s.operations r = .idle) (hnone : s.NoneErased (base packId))
    (h : Steps srt s (.lookup r packId, e) t) : Simulates srt s u e t := by
  simp only [Steps, step, hr] at h
  split at h
  next hmap =>
    have hanswers : u.Answers srt (.delete packId, .deleted true) u := by
      change (true, u) = u.deletePacket packId
      rw [PacketLoggerServer.deletePacket, hu, record_of_none hmap]
    exact answer_none_spec hs hu hr hanswers h
  next pvd hmap =>
    obtain ⟨rfl, rfl⟩ := Prod.mk.inj (Option.some.inj h)
    refine found_spec hs hu ?_ rfl (by rintro ⟨_, _, h⟩; cases h) (by rw [hr]; rfl) hmap hnone
    rintro ⟨_, _, h⟩
    rw [hr] at h
    cases h

lemma clear_spec (hr : s.operations r = .deleting packId pvd) (hun : s.Unheld (.clear r))
    (h : Steps srt s (.clear r, e) t) : Simulates srt s u e t := by
  have hholds : (s.operations r).holds = some (base packId, pvd) := by rw [hr]; rfl
  have hold : ¬ (s.operations r).Erases := by
    rintro ⟨_, _, h⟩
    rw [hr] at h
    cases h
  have hmap := hs.holds r _ pvd hholds
  obtain ⟨record, hmem⟩ := Option.isSome_iff_exists.mp (hs.isSome_of_holds hholds hold)
  simp only [Steps, step, hr, hmem, Option.getD_some] at h
  split_ifs at h with hpart
  · have hanswers : u.Answers srt (.delete packId, .deleted false) u := by
      have hempty : record.packetVersions ≠ [] := fun hempty => by
        rw [hs.index pvd record hmem hempty] at hpart
        exact absurd hpart (Nat.not_lt_zero _)
      change (false, u) = u.deletePacket packId
      rw [PacketLoggerServer.deletePacket, hu, record_of_memory hmap hmem, if_neg hempty]
      simp only [hpart, if_true]
    exact answer_spec hs hu hanswers (by rw [hr]; rfl) h
  · obtain ⟨rfl, rfl⟩ := Prod.mk.inj (Option.some.inj h)
    obtain ⟨v, hv, hmatches⟩ := hu.clear hs hmap hmem hpart
    exact ⟨hs.clear hr (hun packId pvd record hr hmem (Nat.not_lt.mp hpart)),
      ⟨v, .single hv, hmatches⟩, commits_of_some rfl (by rw [hr]; rfl) rfl⟩

lemma erase_spec (hr : s.operations r = .erasing packId pvd) :
    Simulates srt s u none (s.erase r packId) :=
  ⟨hs.erase hr, ⟨u, .nil, hu.erase hs hr⟩, commits_of_none rfl (by rw [hr]; rfl)⟩

end

/-- **One section.**  A section that meets the condition keeps the invariant, and does to the
server what the operation does that takes effect, if one does. -/
lemma step_spec {a : Section} {e : Option Event} (hs : Inv s) (hu : s.Matches u)
    (hun : s.Unheld a) (h : Steps srt s (a, e) t) : Simulates srt s u e t := by
  have hnone : ∀ {p : PacketPhase}, p.Erases → p.holds = none → False := by
    rintro _ ⟨_, _, rfl⟩ h
    cases h
  have hstep := h
  rw [Steps] at h
  cases a with
  | beginCount r wpd | endCount r | beginSize r | endSize r =>
      simp only [step] at h
      split at h
      next hr =>
        obtain ⟨rfl, rfl⟩ := Prod.mk.inj (Option.some.inj h)
        exact unlocked_spec hs hu (fun he => hnone he (by rw [hr]; rfl)) rfl
          (fun he => hnone he rfl) (by rw [hr]; rfl)
      · cases h
  | getOrCreate r =>
      simp only [step] at h
      split at h
      next wpd hr =>
        obtain ⟨rfl, rfl⟩ := Prod.mk.inj (Option.some.inj h)
        exact getOrCreate_spec hs hu hr (hun wpd hr).1
      · cases h
  | addVersion r =>
      simp only [step] at h
      split at h
      next wpd pvd hr =>
        obtain ⟨rfl, rfl⟩ := Prod.mk.inj (Option.some.inj h)
        exact addVersion_spec hs hu hr
      · cases h
  | find r packId retVal =>
      simp only [step] at h
      split at h
      next hr => exact find_spec hs hu hr hun hstep
      · cases h
  | copyVersions r =>
      simp only [step] at h
      split at h
      next packId retVal pvd hr => exact copyVersions_spec hs hu hr hstep
      · cases h
  | lookup r packId =>
      simp only [step] at h
      split at h
      next hr => exact lookup_spec hs hu hr hun hstep
      · cases h
  | clear r =>
      simp only [step] at h
      split at h
      next packId pvd hr => exact clear_spec hs hu hr hun hstep
      · cases h
  | erase r =>
      simp only [step] at h
      split at h
      next packId pvd hr =>
        obtain ⟨rfl, rfl⟩ := Prod.mk.inj (Option.some.inj h)
        exact erase_spec hs hu hr
      · cases h

/-- The steps that meet the condition. -/
def UnheldSteps (srt : VersionSort) :
    LoggerSections → Section × Option Event → LoggerSections → Prop :=
  When (fun s a => s.Unheld a.1) (Steps srt)

/-- **The packet logger is linearizable.**  In a run in which no operation looks up a record that is
freed but still in the map, no record is freed while another operation holds it, and none is put
into the map or taken out of it while a store reads the map without its lock: no section works on a
freed record; each operation takes effect at most once, and a finished one has, with its answer; and
the operations, in the order in which they take effect and with these answers, are a run of the
server that executes one operation after the other, which ends with the records that are in
memory. -/
theorem operations_linearizable {as : List (Section × Option Event)}
    (h : Run (UnheldSteps srt) new as s) :
    Run (With (fun s a _ => s.Live a.1) (Steps srt)) new as s ∧
      ((events as).map Prod.fst).Nodup ∧
      (∀ r operation ans, s.operations r = .answered operation ans →
        (r, operation, ans) ∈ events as) ∧
      ∃ u, Run (fun u (e : Event) => u.Answers srt e.2) PacketLoggerServer.new (events as) u ∧
        s.Matches u := by
  have hkeep : ∀ s a t, (∃ u, Inv s ∧ s.Matches u) → UnheldSteps srt s a t →
      ∃ u, Inv t ∧ t.Matches u := by
    rintro s a t ⟨u, hs, hu⟩ hst
    have hspec := step_spec hs hu hst.1 hst.2
    obtain ⟨v, -, hv⟩ := hspec.answers
    exact ⟨v, hspec.inv, hv⟩
  have hrun := h.keeping hkeep ⟨.new, inv_new, matches_new⟩
  have hcommits : ∀ s a e t, ((∃ u, Inv s ∧ s.Matches u) ∧ UnheldSteps srt s (a, e) t) →
      Commits committed s e t := by
    rintro s a e t ⟨⟨u, hs, hu⟩, hst⟩
    exact (step_spec hs hu hst.1 hst.2).commits
  have hsim : ∀ s a e t u, (Inv s ∧ s.Matches u) → UnheldSteps srt s (a, e) t →
      ∃ v, Run (fun u (e : Event) => u.Answers srt e.2) u e.toList v ∧ Inv t ∧ t.Matches v := by
    rintro s a e t u ⟨hs, hu⟩ hst
    have hspec := step_spec hs hu hst.1 hst.2
    obtain ⟨v, hv, htv⟩ := hspec.answers
    exact ⟨v, hv, hspec.inv, htv⟩
  obtain ⟨hnodup, hmem⟩ := hrun.commits hcommits fun _ => rfl
  obtain ⟨u, hspec, -, hu⟩ := h.simulates hsim ⟨inv_new, matches_new⟩
  refine ⟨hrun.mono fun s a t hst => ?_, hnodup, fun r operation ans hr => ?_, u, hspec, hu⟩
  · obtain ⟨⟨u, hs, -⟩, hstep⟩ := hst
    exact ⟨hstep.2, hs.isLive a.1⟩
  · rw [hmem, committed, hr]
    rfl

/-- The sections of two stores for one packet, of which the later one adds its fragment first, of a
packet that is not there, and of a deletion. -/
def fourOperations : List (Section × Option Event) :=
  [(.beginCount 0 ⟨33, 0, 1, [5], rfl⟩, none), (.beginCount 1 ⟨34, 0, 1, [6], rfl⟩, none),
    (.endCount 1, none), (.endCount 0, none), (.getOrCreate 0, none), (.getOrCreate 1, none),
    (.addVersion 1, some (1, .store ⟨34, 0, 1, [6], rfl⟩, .stored)), (.beginSize 1, none),
    (.find 2 65 fun _ => 0, some (2, .get 65 fun _ => 0, .packet (fun _ => 0) 0)),
    (.addVersion 0, some (0, .store ⟨33, 0, 1, [5], rfl⟩, .stored)), (.beginSize 0, none),
    (.endSize 1, none), (.endSize 0, none), (.lookup 3 34, none),
    (.clear 3, some (3, .delete 34, .deleted true)), (.erase 3, none)]

lemma run_fourOperations : ∃ s, Run (UnheldSteps .stable) new fourOperations s := by
  have hnone : ∀ (s : LoggerSections) (b : PacketBase),
      (∀ r, ¬ (s.operations r).Erases) → s.NoneErased b := fun s b h r packId pvd hr =>
    absurd ⟨packId, pvd, hr⟩ (h r)
  refine ⟨_, .cons ⟨trivial, rfl⟩ (.cons ⟨trivial, rfl⟩ (.cons ⟨trivial, rfl⟩
    (.cons ⟨trivial, rfl⟩ (.cons ⟨?_, rfl⟩ (.cons ⟨?_, rfl⟩ (.cons ⟨trivial, rfl⟩
    (.cons ⟨trivial, rfl⟩ (.cons ⟨hnone _ _ ?_, rfl⟩ (.cons ⟨trivial, rfl⟩ (.cons ⟨trivial, rfl⟩
    (.cons ⟨trivial, rfl⟩ (.cons ⟨trivial, rfl⟩ (.cons ⟨hnone _ _ ?_, rfl⟩
    (.cons ⟨?_, rfl⟩ (.cons ⟨?_, rfl⟩ .nil)))))))))))))))⟩
  · refine fun wpd _ => ⟨hnone _ _ ?_, fun _ => ?_⟩
    · rintro (_ | _ | r) ⟨_, _, h⟩ <;> cases h
    · rintro (_ | _ | r) <;> rfl
  · refine fun wpd hr => ⟨hnone _ _ ?_, fun hmap => ?_⟩
    · rintro (_ | _ | r) ⟨_, _, h⟩ <;> cases h
    · obtain rfl := PacketPhase.counted.inj hr
      cases hmap
  · rintro (_ | _ | r) ⟨_, _, h⟩ <;> cases h
  · rintro (_ | _ | _ | r) ⟨_, _, h⟩ <;> cases h
  · rintro packId pvd record _ _ _ (_ | _ | _ | _ | r) b hne h
    · cases h
    · cases h
    · cases h
    · exact hne rfl
    · cases h
  · rintro (_ | _ | _ | _ | r) <;> rfl

theorem operations_linearizable_twoStores : ∃ (s : LoggerSections) (u : PacketLoggerServer),
    Run (With (fun s a _ => s.Live a.1) (Steps .stable)) new fourOperations s ∧
      Run (fun u (e : Event) => u.Answers .stable e.2) PacketLoggerServer.new
        [(1, .store ⟨34, 0, 1, [6], rfl⟩, .stored), (2, .get 65 fun _ => 0, .packet (fun _ => 0) 0),
          (0, .store ⟨33, 0, 1, [5], rfl⟩, .stored), (3, .delete 34, .deleted true)] u ∧
      s.Matches u := by
  obtain ⟨s, hs⟩ := run_fourOperations
  obtain ⟨hlive, -, -, u, hspec, hu⟩ := operations_linearizable hs
  exact ⟨s, u, hlive, hspec, hu⟩

end LoggerSections

end FtThesis
