/-
The sections of a store, among other requests of the determinant logger.

For each section: it keeps the invariant (`Inv`), and what it does to the server that the state
matches (`Matches`).

* `Inv.getOrCreatePacketData`, `Inv.updatePacketData`, `Inv.getOrCreateServerProgressData`,
  `Inv.addPacketId`: the invariant;
* `Matches.getOrCreatePacketData` and the others: the server stays as it is until the id is
  appended, and then it does `processStoreRequest`.
-/
import FtThesis.DetLogger.Careful

namespace FtThesis

open Transition

namespace DetSections

variable {s t : DetSections} {u v : DetLoggerServer} {r : ℕ} {p : DetPhase} {pm : PALSManager}
  {mb mbId : MbId} {id packId : PacketId} {n : UInt32} {retVal : Memory.Mem} {a : ℕ}

/-! ### The record -/

/-- A store that begins finds no record of its packet. -/
lemma Inv.address_eq_none (hs : Inv s) (hflight : ¬ s.InFlight mb id)
    (hlisted : id ∉ (s.visible mb).packetIdsVector) : s.address mb id = none := by
  rw [Option.eq_none_iff_forall_ne_some]
  intro a ha
  rcases hs.found mb id a ha with h | h
  · exact hlisted h
  · exact hflight h

lemma getOrCreatePacketData_eq (hnone : s.address pm.middleboxId pm.packetId = none) :
    s.getOrCreatePacketData r pm =
      (s.createPacketData pm).setRequest r (.storing pm s.nextAddress) := by
  rw [getOrCreatePacketData, hnone]

/-- The records of the other packets are as they were. -/
lemma Inv.recordAt_createPacketData (hs : Inv s) :
    (s.createPacketData pm).recordAt mb id =
      if mb = pm.middleboxId ∧ id = pm.packetId then some .new else s.recordAt mb id := by
  rw [recordAt, address_createPacketData]
  split_ifs with hkey
  · simp [createPacketData]
  · rw [recordAt]
    cases ha : s.address mb id with
    | none => rfl
    | some a => exact Function.update_of_ne (hs.live mb id a ha).1.ne ..

lemma Inv.getOrCreatePacketData (hs : Inv s) (hr : s.requests r = .idle)
    (hflight : ¬ s.InFlight pm.middleboxId pm.packetId)
    (hlisted : pm.packetId ∉ (s.visible pm.middleboxId).packetIdsVector) :
    Inv (s.getOrCreatePacketData r pm) := by
  have hnone := hs.address_eq_none hflight hlisted
  have hold : ∀ mb n, s.requests r ≠ .erasing mb n := by rw [hr]; exact nofun
  have haddr := s.address_createPacketData pm
  have hrecord : ∀ mb id, (s.createPacketData pm).recordAt mb id = _ := fun _ _ =>
    hs.recordAt_createPacketData
  have hvisible :
      ((s.createPacketData pm).setRequest r (.storing pm s.nextAddress)).visible = s.visible :=
    visible_setRequest (fun mb r => (hs.lock mb r).mp) hold
  have hidle : (s.createPacketData pm).requests r = .idle := hr
  have hbegin : ∀ mb id,
      ((s.createPacketData pm).setRequest r (.storing pm s.nextAddress)).InFlight mb id ↔
        (mb = pm.middleboxId ∧ id = pm.packetId) ∨ s.InFlight mb id :=
    fun _ _ => inFlight_of_begin (by rw [hidle]; rfl) rfl
  rw [getOrCreatePacketData_eq hnone]
  refine ⟨fun mb id a ha => ?_, fun mb id mb' id' a ha ha' => ?_, fun r' => ?_,
    fun r₁ r₂ pm₁ pm₂ => ?_, fun mb id h => ?_, fun mb id a ha => ?_,
    hs.lock_setRequest hold nofun⟩
  · rw [address_setRequest, haddr] at ha
    split_ifs at ha
    · obtain rfl := Option.some.inj ha
      exact ⟨Nat.lt_succ_self _, by simp [createPacketData]⟩
    · obtain ⟨hlt, hsome⟩ := hs.live mb id a ha
      exact ⟨Nat.lt_succ_of_lt hlt, by simpa [createPacketData, hlt.ne] using hsome⟩
  · rw [address_setRequest, haddr] at ha ha'
    split_ifs at ha ha' with hkey hkey' hkey'
    · exact ⟨hkey.1.trans hkey'.1.symm, hkey.2.trans hkey'.2.symm⟩
    · obtain rfl := Option.some.inj ha
      exact absurd (hs.live mb' id' _ ha').1 (lt_irrefl _)
    · obtain rfl := Option.some.inj ha'
      exact absurd (hs.live mb id _ ha).1 (lt_irrefl _)
    · exact hs.distinct mb id mb' id' a ha ha'
  · rcases (s.createPacketData pm).cases_setRequest r (.storing pm s.nextAddress) r' with
      ⟨-, heq⟩ | ⟨-, heq⟩
    · rw [heq]
      exact ⟨(haddr _ _).trans (if_pos ⟨rfl, rfl⟩), (hrecord _ _).trans (if_pos ⟨rfl, rfl⟩)⟩
    · rw [heq]
      refine (hs.holds r').congr (fun pm' h => ?_) fun mb id a ha hno _ => ?_
      · have hkey : ¬ (pm'.middleboxId = pm.middleboxId ∧ pm'.packetId = pm.packetId) :=
          fun hkey => hflight ⟨r', pm', h, hkey⟩
        exact ⟨(haddr _ _).trans (if_neg hkey), (hrecord _ _).trans (if_neg hkey)⟩
      · have hkey : ¬ (mb = pm.middleboxId ∧ id = pm.packetId) := by
          rintro ⟨rfl, rfl⟩
          rw [hnone] at ha
          cases ha
        exact ⟨((haddr _ _).trans (if_neg hkey)).trans ha,
          fun h => ((hbegin mb id).mp h).elim hkey hno⟩
  · refine hs.alone_setRequest (p := .storing pm s.nextAddress) fun pm' h => ?_
    obtain rfl : pm = pm' := Option.some.inj h
    exact .inr hflight
  · rw [hvisible]
    rcases (hbegin mb id).mp h with ⟨rfl, rfl⟩ | h
    · exact hlisted
    · exact hs.unlisted mb id h
  · rw [hvisible, hbegin]
    rw [address_setRequest, haddr] at ha
    split_ifs at ha with hkey
    · exact .inr (.inl hkey)
    · exact (hs.found mb id a ha).imp_right .inr

lemma Matches.getOrCreatePacketData (hu : s.Matches u) (hs : Inv s) (hr : s.requests r = .idle)
    (hflight : ¬ s.InFlight pm.middleboxId pm.packetId)
    (hlisted : pm.packetId ∉ (s.visible pm.middleboxId).packetIdsVector) :
    (s.getOrCreatePacketData r pm).Matches u := by
  have hnone := hs.address_eq_none hflight hlisted
  have hold : ∀ mb n, s.requests r ≠ .erasing mb n := by rw [hr]; exact nofun
  have hidle : (s.createPacketData pm).requests r = .idle := hr
  have hbegin : ∀ mb id,
      ((s.createPacketData pm).setRequest r (.storing pm s.nextAddress)).InFlight mb id ↔
        (mb = pm.middleboxId ∧ id = pm.packetId) ∨ s.InFlight mb id :=
    fun _ _ => inFlight_of_begin (by rw [hidle]; rfl) rfl
  rw [getOrCreatePacketData_eq hnone]
  refine ⟨fun mb => ?_, fun mb id h => ?_, fun mb id h => ?_⟩
  · rw [hu.list, ← visible_setRequest (fun mb r => (hs.lock mb r).mp) hold]
    rfl
  · rw [hbegin, not_or] at h
    exact (hu.record mb id h.2).trans (hs.recordAt_createPacketData.trans (if_neg h.1)).symm
  · rcases (hbegin mb id).mp h with ⟨rfl, rfl⟩ | h
    · rw [hu.record _ _ hflight, recordAt, hnone]
      rfl
    · exact hu.unpublished mb id h

section

variable (hs : Inv s) (hr : s.requests r = .storing pm a)

include hs hr

lemma Inv.recordAt_updatePacketData :
    (s.updatePacketData r pm a).recordAt mb id =
      if mb = pm.middleboxId ∧ id = pm.packetId then
        some (DetLoggerServer.updatePacketData .new pm)
      else s.recordAt mb id := by
  have hholds := hs.holds r
  rw [hr] at hholds
  obtain ⟨ha, hrecord⟩ := hholds
  rw [recordAt, ha, Option.bind_some] at hrecord
  have haddr : (s.updatePacketData r pm a).address = s.address := rfl
  rw [recordAt, haddr, recordAt]
  split_ifs with hkey
  · rw [hkey.1, hkey.2, ha]
    simp [updatePacketData, hrecord]
  · cases ha' : s.address mb id with
    | none => rfl
    | some a' =>
        have hne : a' ≠ a := fun heq => hkey (hs.distinct _ _ _ _ _ ha' (heq ▸ ha))
        exact Function.update_of_ne hne ..

lemma Inv.updatePacketData : Inv (s.updatePacketData r pm a) := by
  have hold : ∀ mb n, s.requests r ≠ .erasing mb n := by rw [hr]; exact nofun
  have hstores : (DetPhase.updated pm).stores = (s.requests r).stores := by rw [hr]; rfl
  have hvisible : (s.updatePacketData r pm a).visible = s.visible :=
    visible_setRequest (p := .updated pm) (fun mb r => (hs.lock mb r).mp) hold
  have hflight : ∀ mb id, (s.updatePacketData r pm a).InFlight mb id ↔ s.InFlight mb id :=
    fun _ _ => inFlight_of_stores hstores
  have hrecord : ∀ mb id, (s.updatePacketData r pm a).recordAt mb id = _ := fun _ _ =>
    hs.recordAt_updatePacketData hr
  refine ⟨fun mb id a' ha' => ?_, hs.distinct, fun r' => ?_, fun r₁ r₂ pm₁ pm₂ => ?_,
    fun mb id h => ?_, fun mb id a' ha' => ?_, hs.lock_setRequest hold nofun⟩
  · obtain ⟨hlt, hsome⟩ := hs.live mb id a' ha'
    refine ⟨hlt, ?_⟩
    rcases eq_or_ne a' a with rfl | hne
    · simp [DetSections.updatePacketData]
    · simpa [DetSections.updatePacketData, hne] using hsome
  · rcases s.cases_setRequest r (.updated pm) r' with ⟨-, heq⟩ | ⟨hne, heq⟩
    · rw [show (s.updatePacketData r pm a).requests r' = _ from heq]
      exact (hrecord _ _).trans (if_pos ⟨rfl, rfl⟩)
    · rw [show (s.updatePacketData r pm a).requests r' = _ from heq]
      refine (hs.holds r').congr (fun pm' h => ⟨rfl, ?_⟩) fun mb id a' ha' hno _ =>
        ⟨ha', fun h => hno ((hflight mb id).mp h)⟩
      refine (hrecord _ _).trans (if_neg fun hkey => hne ?_)
      exact hs.alone r' r pm' pm h (hstores ▸ rfl) hkey.1 hkey.2
  · exact hs.alone_setRequest (p := .updated pm) fun pm' h => .inl (hstores ▸ h)
  · rw [hvisible]
    exact hs.unlisted mb id ((hflight mb id).mp h)
  · rw [hvisible, hflight]
    exact hs.found mb id a' ha'

lemma Matches.updatePacketData (hu : s.Matches u) : (s.updatePacketData r pm a).Matches u := by
  have hold : ∀ mb n, s.requests r ≠ .erasing mb n := by rw [hr]; exact nofun
  have hstores : (DetPhase.updated pm).stores = (s.requests r).stores := by rw [hr]; rfl
  have hflight : ∀ mb id, (s.updatePacketData r pm a).InFlight mb id ↔ s.InFlight mb id :=
    fun _ _ => inFlight_of_stores hstores
  refine ⟨fun mb => ?_, fun mb id h => ?_, fun mb id h => ?_⟩
  · rw [hu.list, ← visible_setRequest (p := .updated pm) (fun mb r => (hs.lock mb r).mp) hold]
    rfl
  · rw [hflight] at h
    rw [hs.recordAt_updatePacketData hr, if_neg, hu.record mb id h]
    rintro ⟨rfl, rfl⟩
    exact h ⟨r, pm, hstores ▸ rfl, rfl, rfl⟩
  · exact hu.unpublished mb id ((hflight mb id).mp h)

end

/-! ### The list -/

/-- The requests see the new list of a middlebox whose lock is free. -/
lemma visible_setList (hfree : s.spdLock mbId = none) (list : ServerProgressData) (mb : MbId) :
    (s.setList mbId list).visible mb = if mb = mbId then list else s.visible mb := by
  have hlock : (s.setList mbId list).spdLock = s.spdLock := rfl
  split_ifs with hmb
  · rw [hmb, visible_of_free (hlock ▸ hfree), spd_setList, if_pos rfl]
  · rw [visible, spd_setList, if_neg hmb, visible]
    rfl

lemma visible_setList_spd (s : DetSections) (mbId : MbId) :
    (s.setList mbId (s.spd mbId)).visible = s.visible := by
  have hspd : (s.setList mbId (s.spd mbId)).spd = s.spd := by
    funext mb
    rw [spd_setList]
    split_ifs with hmb
    · rw [hmb]
    · rfl
  funext mb
  rw [visible, hspd, visible]
  rfl

lemma Inv.setList_spd (hs : Inv s) (mbId : MbId) : Inv (s.setList mbId (s.spd mbId)) := by
  have hvisible := s.visible_setList_spd mbId
  refine ⟨hs.live, hs.distinct, hs.holds, hs.alone, fun mb id h => ?_, fun mb id a ha => ?_,
    hs.lock⟩
  · rw [hvisible]
    exact hs.unlisted mb id h
  · rw [hvisible]
    exact hs.found mb id a ha

lemma Matches.setList_spd (hu : s.Matches u) (mbId : MbId) :
    (s.setList mbId (s.spd mbId)).Matches u :=
  ⟨fun mb => by rw [visible_setList_spd, hu.list], hu.record, hu.unpublished⟩

section

variable (hs : Inv s) (hr : s.requests r = .updated pm)

include hs hr

lemma Inv.getOrCreateServerProgressData : Inv (s.getOrCreateServerProgressData r pm) := by
  have hholds := hs.holds r
  rw [hr] at hholds
  refine (hs.setList_spd pm.middleboxId).setRequest ?_ nofun ?_ hholds
  · rw [requests_setList, hr]
    exact nofun
  · rw [requests_setList, hr]
    rfl

lemma Matches.getOrCreateServerProgressData (hu : s.Matches u) :
    (s.getOrCreateServerProgressData r pm).Matches u := by
  refine (hu.setList_spd pm.middleboxId).setRequest (hs.setList_spd _) ?_ ?_
  · rw [requests_setList, hr]
    exact nofun
  · rw [requests_setList, hr]
    rfl

end

section

variable (hs : Inv s) (hr : s.requests r = .publishing pm)
  (hfree : s.spdLock pm.middleboxId = none)

include hs hr hfree

lemma Inv.visible_addPacketId :
    (s.addPacketId r pm).visible mb =
      if mb = pm.middleboxId then
        ⟨(s.visible mb).packetIdsVector ++ [pm.packetId], (s.visible mb).index + 1⟩
      else s.visible mb := by
  rw [addPacketId, visible_setRequest (s := s.setList _ _) (fun mb r => (hs.lock mb r).mp)
    (by rw [requests_setList, hr]; exact nofun), visible_setList hfree]
  split_ifs with hmb
  · rw [hmb, visible_of_free hfree]
  · rfl

omit hfree in
/-- A packet whose id is appended has no running store any more. -/
lemma Inv.inFlight_addPacketId :
    (s.addPacketId r pm).InFlight mb id ↔
      s.InFlight mb id ∧ ¬ (mb = pm.middleboxId ∧ id = pm.packetId) :=
  hs.inFlight_of_end (by rw [hr]; rfl) rfl

lemma Inv.addPacketId : Inv (s.addPacketId r pm) := by
  have hold : ∀ mb n, s.requests r ≠ .erasing mb n := by rw [hr]; exact nofun
  have hvisible : ∀ mb, (s.addPacketId r pm).visible mb = _ := fun _ =>
    hs.visible_addPacketId hr hfree
  have hflight : ∀ mb id, (s.addPacketId r pm).InFlight mb id ↔
      s.InFlight mb id ∧ ¬ (mb = pm.middleboxId ∧ id = pm.packetId) :=
    fun _ _ => hs.inFlight_addPacketId hr
  refine ⟨hs.live, hs.distinct, fun r' => ?_, fun r₁ r₂ pm₁ pm₂ => ?_, fun mb id h => ?_,
    fun mb id a ha => ?_, hs.lock_setRequest hold nofun⟩
  · rcases s.cases_setRequest r (.answered (.store pm) .done) r' with ⟨-, heq⟩ | ⟨-, heq⟩
    · rw [show (s.addPacketId r pm).requests r' = _ from heq]
      trivial
    · rw [show (s.addPacketId r pm).requests r' = _ from heq]
      exact (hs.holds r').congr (fun _ _ => ⟨rfl, rfl⟩) fun mb id a ha hno _ =>
        ⟨ha, fun h => hno ((hflight mb id).mp h).1⟩
  · exact hs.alone_setRequest (p := .answered (.store pm) .done) nofun
  · obtain ⟨hrun, hkey⟩ := (hflight mb id).mp h
    have hold := hs.unlisted mb id hrun
    rw [hvisible]
    split_ifs with hmb
    · rw [List.mem_append, List.mem_singleton, not_or]
      exact ⟨hold, fun hid => hkey ⟨hmb, hid⟩⟩
    · exact hold
  · rw [hvisible, hflight]
    rcases hs.found mb id a ha with h | h
    · left
      split_ifs
      · exact List.mem_append_left _ h
      · exact h
    · by_cases hkey : mb = pm.middleboxId ∧ id = pm.packetId
      · left
        rw [if_pos hkey.1, hkey.2]
        simp
      · exact .inr ⟨h, hkey⟩

/-- A store takes effect when its id is appended. -/
lemma Matches.addPacketId (hu : s.Matches u) :
    (s.addPacketId r pm).Matches (u.processStoreRequest pm) := by
  have hflight : ∀ mb id, (s.addPacketId r pm).InFlight mb id ↔
      s.InFlight mb id ∧ ¬ (mb = pm.middleboxId ∧ id = pm.packetId) :=
    fun _ _ => hs.inFlight_addPacketId hr
  have hrunning : s.InFlight pm.middleboxId pm.packetId := ⟨r, pm, by rw [hr]; rfl, rfl, rfl⟩
  have hholds := hs.holds r
  rw [hr] at hholds
  refine ⟨fun mb => ?_, fun mb id h => ?_, fun mb id h => ?_⟩
  · rw [hs.visible_addPacketId hr hfree, DetLoggerServer.list_processStoreRequest, hu.list]
  · rw [DetLoggerServer.getPacketData_processStoreRequest]
    split_ifs with hkey
    · rw [hkey.1, hkey.2, hu.unpublished _ _ hrunning]
      exact hholds.symm
    · refine hu.record mb id fun hrun => h ((hflight mb id).mpr ⟨hrun, hkey⟩)
  · obtain ⟨hrun, hkey⟩ := (hflight mb id).mp h
    rw [DetLoggerServer.getPacketData_processStoreRequest, if_neg hkey, hu.unpublished mb id hrun]

end

end DetSections

end FtThesis
