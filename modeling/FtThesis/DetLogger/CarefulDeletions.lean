/-
The sections of a deletion, among other requests of the determinant logger.

A deletion first deletes the records and then, still under the lock of the list, erases the ids.

* `address_deletePackets`, `Inv.recordAt_deletePackets`, `Inv.visible_deletePackets`: what the
  first section leaves of the records and of the lists;
* `Inv.deletePackets`, `Inv.eraseIds`: both keep the invariant;
* `Matches.deletePackets`, `Matches.eraseIds`: the first one does what
  `processDeleteFirstPacketsRequest` does, and nobody sees the second one.
-/
import FtThesis.DetLogger.Careful

namespace FtThesis

open Transition

namespace DetSections

variable {s t : DetSections} {u v : DetLoggerServer} {r : ℕ} {p : DetPhase} {pm : PALSManager}
  {mb mbId : MbId} {id packId : PacketId} {n : UInt32} {retVal : Memory.Mem} {a : ℕ}

/-! ### The records are deleted -/

section

variable (hs : Inv s) (hr : s.requests r = .deleting mbId n) (hfree : s.spdLock mbId = none)

/-- What a deletion leaves of the records. -/
lemma address_deletePackets (mb : MbId) (id : PacketId) :
    (s.deletePackets r mbId n).address mb id =
      if mb = mbId ∧ id ∈ s.removed mbId n then none else s.address mb id :=
  (s.deleteRecords_spec mbId (s.removed mbId n)).2.2.2.2.1 mb id

include hs in
lemma Inv.recordAt_deletePackets (mb : MbId) (id : PacketId) :
    (s.deletePackets r mbId n).recordAt mb id =
      if mb = mbId ∧ id ∈ s.removed mbId n then none else s.recordAt mb id := by
  rw [recordAt, address_deletePackets]
  split_ifs with hkey
  · rfl
  · rw [recordAt]
    cases ha : s.address mb id with
    | none => rfl
    | some a =>
        refine (s.deleteRecords_spec mbId (s.removed mbId n)).2.2.2.2.2 a fun id' hid' ha' => ?_
        obtain ⟨rfl, rfl⟩ := hs.distinct _ _ _ _ _ ha' ha
        exact hkey ⟨rfl, hid'⟩

lemma requests_deletePackets (s : DetSections) (r : ℕ) (mbId : MbId) (n : UInt32) :
    (s.deletePackets r mbId n).requests = (s.setRequest r (.erasing mbId n)).requests := by
  rw [deletePackets, setRequest, (s.deleteRecords_spec mbId _).2.2.2.1]
  rfl

lemma spd_deletePackets (s : DetSections) (r : ℕ) (mbId : MbId) (n : UInt32) :
    (s.deletePackets r mbId n).spd = s.spd := by
  funext mb
  have hprog : (s.deletePackets r mbId n).progressData = s.progressData :=
    (s.deleteRecords_spec mbId (s.removed mbId n)).1
  rw [spd, hprog, spd]

include hr in
lemma inFlight_deletePackets :
    (s.deletePackets r mbId n).InFlight mb id ↔ s.InFlight mb id := by
  rw [InFlight, requests_deletePackets]
  exact inFlight_of_stores (by rw [hr]; rfl)

include hfree in
/-- The removed ids are the first ones that the requests see. -/
lemma mem_visible_of_removed (h : id ∈ s.removed mbId n) :
    id ∈ (s.visible mbId).packetIdsVector := by
  rw [visible_of_free hfree]
  exact List.mem_of_mem_take h

/-- An id that the requests see, and that is not removed, stays in the list. -/
lemma mem_cutList_of_not_removed (h : id ∈ (s.spd mbId).packetIdsVector)
    (hkept : id ∉ s.removed mbId n) : id ∈ (cutList (s.spd mbId) n).packetIdsVector := by
  rw [← List.take_append_drop (DetLoggerServer.totalToRemove (s.spd mbId) n).toNat
    (s.spd mbId).packetIdsVector, List.mem_append] at h
  exact h.resolve_left hkept

include hs hr hfree

lemma Inv.visible_deletePackets (mb : MbId) :
    (s.deletePackets r mbId n).visible mb =
      if mb = mbId then cutList (s.visible mb) n else s.visible mb := by
  have hlock : (s.deletePackets r mbId n).spdLock = Function.update s.spdLock mbId (some r) := rfl
  rw [visible, requests_deletePackets, spd_deletePackets, hlock]
  split_ifs with hmb
  · rw [hmb, Function.update_self, Option.map_some, requests_setRequest_self,
      visible_of_free hfree]
  · rw [Function.update_of_ne hmb]
    have hold : ∀ mb n, s.requests r ≠ .erasing mb n := fun mb n h => by
      rw [hr] at h
      cases h
    exact congrFun (visible_setRequest (p := .erasing mbId n) (fun mb r => (hs.lock mb r).mp)
      hold) mb

lemma Inv.deletePackets
    (hunheld : ∀ id ∈ s.removed mbId n, ∀ r' retVal a, s.requests r' ≠ .asking mbId id retVal a) :
    Inv (s.deletePackets r mbId n) := by
  have hvisible := hs.visible_deletePackets hr hfree
  have hflight : ∀ mb id, (s.deletePackets r mbId n).InFlight mb id ↔ s.InFlight mb id :=
    fun _ _ => inFlight_deletePackets hr
  have hrecord : ∀ mb id, (s.deletePackets r mbId n).recordAt mb id = _ :=
    hs.recordAt_deletePackets
  have haddr : ∀ mb id, (s.deletePackets r mbId n).address mb id = _ := s.address_deletePackets
  have hreq := s.requests_deletePackets r mbId n
  have hrunning : ∀ {mb id}, s.InFlight mb id → ¬ (mb = mbId ∧ id ∈ s.removed mbId n) := by
    rintro mb id h ⟨rfl, hid⟩
    exact hs.unlisted mb id h (mem_visible_of_removed hfree hid)
  refine ⟨fun mb id a ha => ?_, fun mb id mb' id' a ha ha' => ?_, fun r' => ?_,
    fun r₁ r₂ pm₁ pm₂ => ?_, fun mb id h => ?_, fun mb id a ha => ?_, fun mb r' => ?_⟩
  · have hsame := hrecord mb id
    rw [recordAt, ha] at hsame
    rw [haddr] at ha
    split_ifs at ha hsame
    rw [recordAt, ha] at hsame
    obtain ⟨hlt, hsome⟩ := hs.live mb id a ha
    rw [Option.bind_some, Option.bind_some] at hsame
    have hnext : (s.deletePackets r mbId n).nextAddress = s.nextAddress :=
      (s.deleteRecords_spec mbId (s.removed mbId n)).2.1
    exact ⟨hnext ▸ hlt, hsame ▸ hsome⟩
  · rw [haddr] at ha ha'
    split_ifs at ha ha'
    exact hs.distinct mb id mb' id' a ha ha'
  · rw [hreq]
    rcases s.cases_setRequest r (.erasing mbId n) r' with ⟨-, heq⟩ | ⟨-, heq⟩
    · rw [heq]
      trivial
    · rw [heq]
      refine (hs.holds r').congr (fun pm h => ?_) fun mb id a ha hno ⟨retVal, hask⟩ => ?_
      · have hkey := hrunning ⟨r', pm, h, rfl, rfl⟩
        exact ⟨(haddr _ _).trans (if_neg hkey), (hrecord _ _).trans (if_neg hkey)⟩
      · refine ⟨((haddr _ _).trans (if_neg ?_)).trans ha, fun h => hno ((hflight mb id).mp h)⟩
        rintro ⟨rfl, hid⟩
        exact hunheld id hid r' retVal a hask
  · rw [hreq]
    exact hs.alone_setRequest (p := .erasing mbId n) nofun
  · rw [hvisible]
    have hold := hs.unlisted mb id ((hflight mb id).mp h)
    split_ifs
    · exact fun hid => hold (List.mem_of_mem_drop hid)
    · exact hold
  · rw [haddr] at ha
    split_ifs at ha with hkey
    rw [hvisible, hflight]
    refine (hs.found mb id a ha).imp_left fun h => ?_
    split_ifs with hmb
    · subst hmb
      rw [visible_of_free hfree] at h ⊢
      exact mem_cutList_of_not_removed h fun hid => hkey ⟨rfl, hid⟩
    · exact h
  · have hlock : (s.deletePackets r mbId n).spdLock = Function.update s.spdLock mbId (some r) := rfl
    rw [hlock, hreq]
    rcases s.cases_setRequest r (.erasing mbId n) r' with ⟨rfl, heq⟩ | ⟨hne, heq⟩
    · rw [heq]
      by_cases hmb : mb = mbId
      · simp [hmb]
      · have hno : s.spdLock mb ≠ some r' := fun h => by
          obtain ⟨n', hn'⟩ := (hs.lock mb r').mp h
          rw [hr] at hn'
          cases hn'
        rw [Function.update_of_ne hmb]
        exact iff_of_false hno fun ⟨n', hn'⟩ => hmb (DetPhase.erasing.inj hn').1.symm
    · rw [heq, ← hs.lock mb r']
      by_cases hmb : mb = mbId
      · rw [hmb, Function.update_self, hfree]
        exact iff_of_false (fun h => hne (Option.some.inj h).symm) nofun
      · rw [Function.update_of_ne hmb]

/-- A deletion takes effect when it deletes the records. -/
lemma Matches.deletePackets (hu : s.Matches u) :
    (s.deletePackets r mbId n).Matches (u.processDeleteFirstPacketsRequest mbId n) := by
  have hflight : ∀ mb id, (s.deletePackets r mbId n).InFlight mb id ↔ s.InFlight mb id :=
    fun _ _ => inFlight_deletePackets hr
  have hlist : u.list mbId = s.spd mbId := by rw [hu.list, visible_of_free hfree]
  have hremoved : u.removed mbId n = s.removed mbId n := by
    have h : u.removed mbId n =
      (u.list mbId).packetIdsVector.take
        (DetLoggerServer.totalToRemove (u.list mbId) n).toNat := rfl
    rw [h, hlist, removed]
  refine ⟨fun mb => ?_, fun mb id h => ?_, fun mb id h => ?_⟩
  · rw [hs.visible_deletePackets hr hfree, DetLoggerServer.list_processDeleteFirst, hu.list]
    rfl
  · rw [hflight] at h
    rw [hs.recordAt_deletePackets, DetLoggerServer.getPacketData_processDeleteFirst, hremoved,
      hu.record mb id h]
  · rw [hflight] at h
    rw [DetLoggerServer.getPacketData_processDeleteFirst, hu.unpublished mb id h, ite_self]

end

/-! ### The ids are erased -/

section

variable (hs : Inv s) (hr : s.requests r = .erasing mbId n)

include hr in
lemma inFlight_eraseIds : (s.eraseIds r mbId n).InFlight mb id ↔ s.InFlight mb id :=
  inFlight_of_stores (s := s) (p := .answered (.deleteFirst mbId n) .done) (by rw [hr]; rfl)

include hs hr

/-- The ids that are erased were not seen any more. -/
lemma Inv.visible_eraseIds : (s.eraseIds r mbId n).visible = s.visible := by
  have hheld : s.spdLock mbId = some r := (hs.lock mbId r).mpr ⟨n, hr⟩
  have hlock : (s.eraseIds r mbId n).spdLock = Function.update s.spdLock mbId none := rfl
  have hspd : ∀ mb, _ = _ := s.spd_setList mbId (cutList (s.spd mbId) n)
  funext mb
  rw [visible, show (s.eraseIds r mbId n).spd mb = _ from hspd mb, hlock]
  by_cases hmb : mb = mbId
  · rw [hmb, Function.update_self, if_pos rfl, visible, hheld, Option.map_some, hr]
    rfl
  · rw [Function.update_of_ne hmb, if_neg hmb, visible]
    cases hother : s.spdLock mb with
    | none => rfl
    | some r' =>
        obtain ⟨n', hn'⟩ := (hs.lock mb r').mp hother
        have hne : r' ≠ r := by
          rintro rfl
          rw [hr] at hn'
          exact hmb (DetPhase.erasing.inj hn').1.symm
        have hsame : (s.eraseIds r mbId n).requests r' = s.requests r' :=
          requests_setRequest_of_ne hne _
        simp only [Option.map_some, hsame]

lemma Inv.eraseIds : Inv (s.eraseIds r mbId n) := by
  have hheld : s.spdLock mbId = some r := (hs.lock mbId r).mpr ⟨n, hr⟩
  have hvisible := hs.visible_eraseIds hr
  have hflight : ∀ mb id, (s.eraseIds r mbId n).InFlight mb id ↔ s.InFlight mb id :=
    fun _ _ => inFlight_eraseIds hr
  refine ⟨hs.live, hs.distinct, fun r' => ?_, fun r₁ r₂ pm₁ pm₂ => ?_, fun mb id h => ?_,
    fun mb id a ha => ?_, fun mb r' => ?_⟩
  · rcases s.cases_setRequest r (.answered (.deleteFirst mbId n) .done) r' with ⟨-, heq⟩ | ⟨-, heq⟩
    · rw [show (s.eraseIds r mbId n).requests r' = _ from heq]
      trivial
    · rw [show (s.eraseIds r mbId n).requests r' = _ from heq]
      exact (hs.holds r').congr (fun _ _ => ⟨rfl, rfl⟩) fun mb id a ha hno _ =>
        ⟨ha, fun h => hno ((hflight mb id).mp h)⟩
  · exact hs.alone_setRequest (p := .answered (.deleteFirst mbId n) .done) nofun
  · rw [hvisible]
    exact hs.unlisted mb id ((hflight mb id).mp h)
  · rw [hvisible, hflight]
    exact hs.found mb id a ha
  · have hlock : (s.eraseIds r mbId n).spdLock = Function.update s.spdLock mbId none := rfl
    rw [hlock]
    rcases s.cases_setRequest r (.answered (.deleteFirst mbId n) .done) r' with
      ⟨rfl, heq⟩ | ⟨hne, heq⟩
    · rw [show (s.eraseIds r' mbId n).requests r' = _ from heq]
      refine iff_of_false (fun h => ?_) nofun
      rcases eq_or_ne mb mbId with rfl | hmb
      · rw [Function.update_self] at h
        cases h
      · rw [Function.update_of_ne hmb] at h
        obtain ⟨n', hn'⟩ := (hs.lock mb r').mp h
        rw [hr] at hn'
        exact hmb (DetPhase.erasing.inj hn').1.symm
    · rw [show (s.eraseIds r mbId n).requests r' = _ from heq, ← hs.lock mb r']
      rcases eq_or_ne mb mbId with rfl | hmb
      · rw [Function.update_self, hheld]
        exact iff_of_false nofun fun h => hne (Option.some.inj h).symm
      · rw [Function.update_of_ne hmb]

lemma Matches.eraseIds (hu : s.Matches u) : (s.eraseIds r mbId n).Matches u := by
  have hflight : ∀ mb id, (s.eraseIds r mbId n).InFlight mb id ↔ s.InFlight mb id :=
    fun _ _ => inFlight_eraseIds hr
  refine ⟨fun mb => ?_, fun mb id h => ?_, fun mb id h => ?_⟩
  · rw [hs.visible_eraseIds hr, hu.list]
  · exact hu.record mb id fun hrun => h ((hflight mb id).mpr hrun)
  · exact hu.unpublished mb id ((hflight mb id).mp h)

end

end DetSections

end FtThesis
