/-
Requests of the determinant logger that do not get in each other's way.

* `visible`, `InFlight`, `recordAt`: the list of a middlebox as the requests see it, the packets
  with a running store, and the record of a packet;
* `Careful`: a condition on the sections that begin a store, look a record up, or delete records;
* `Inv`: what it keeps of the state, with `Holds` for what a request relies on in its phase;
* `Matches`: how the state stands to one of `DetLoggerServer`;
* `Inv.setRequest`, `Matches.setRequest`: a request comes to another phase and changes nothing
  else.
-/
import FtThesis.DetLogger.Sections

namespace FtThesis

open Transition

namespace DetLoggerServer

/-- The list of a middlebox. -/
def list (u : DetLoggerServer) (mb : MbId) : ServerProgressData := (u.progressData mb).getD .new

lemma list_processStoreRequest (u : DetLoggerServer) (pm : PALSManager) (mb : MbId) :
    (u.processStoreRequest pm).list mb =
      if mb = pm.middleboxId then
        ⟨(u.list mb).packetIdsVector ++ [pm.packetId], (u.list mb).index + 1⟩
      else u.list mb := by
  rw [list, processStoreRequest, addPacketId, list]
  have hsame : (u.storePacketData pm).progressData = u.progressData := by
    rw [storePacketData]
    split <;> rfl
  by_cases hmb : mb = pm.middleboxId
  · simp [hsame, hmb]
  · simp [hsame, hmb]

lemma totalToRemove_new (n : UInt32) : totalToRemove .new n = 0 := by
  rw [totalToRemove]
  split_ifs with hlt
  · rfl
  · rw [UInt32.lt_iff_toNat_lt] at hlt
    exact UInt32.toNat_inj.mp (Nat.eq_zero_of_not_pos hlt)

lemma list_processDeleteFirst (u : DetLoggerServer) (mbId : MbId) (n : UInt32) (mb : MbId) :
    (u.processDeleteFirstPacketsRequest mbId n).list mb =
      if mb = mbId then
        ⟨(u.list mb).packetIdsVector.drop (totalToRemove (u.list mb) n).toNat,
          (u.list mb).index - totalToRemove (u.list mb) n⟩
      else u.list mb := by
  rw [list, processDeleteFirstPacketsRequest, getServerProgressData, list]
  cases hp : u.progressData mbId with
  | none =>
      have hzero : totalToRemove ⟨[], 0⟩ n = 0 := totalToRemove_new n
      by_cases hmb : mb = mbId
      · simp [hmb, hp, hzero, ServerProgressData.new]
      · simp [hmb]
  | some spd => by_cases hmb : mb = mbId <;> simp [hmb, hp, deleteFirstPackets]

end DetLoggerServer

namespace DetSections

/-! ### What the requests see -/

/-- The list of a middlebox, without the ids that a deletion is about to erase. -/
def visible (s : DetSections) (mb : MbId) : ServerProgressData :=
  match (s.spdLock mb).map s.requests with
  | some (.erasing _ n) => cutList (s.spd mb) n
  | _ => s.spd mb

/-- A store for the packet is running. -/
def InFlight (s : DetSections) (mb : MbId) (id : PacketId) : Prop :=
  ∃ r pm, (s.requests r).stores = some pm ∧ pm.middleboxId = mb ∧ pm.packetId = id

/-- The record of a packet. -/
def recordAt (s : DetSections) (mb : MbId) (id : PacketId) : Option PacketData :=
  (s.address mb id).bind s.memory

/-! ### The condition and the invariant -/

/-- A store begins for a packet that is not listed and has no running store, a record is not
looked up while a store for its packet is running, and no record is deleted while another request
holds its address. -/
def Careful (s : DetSections) : Section → Prop
  | .getOrCreatePacketData _ pm =>
      ¬ s.InFlight pm.middleboxId pm.packetId ∧
        pm.packetId ∉ (s.visible pm.middleboxId).packetIdsVector
  | .getPacketData _ mbId packId _ => ¬ s.InFlight mbId packId
  | .deletePackets r => ∀ mbId n, s.requests r = .deleting mbId n →
      ∀ id ∈ s.removed mbId n, ∀ r' retVal p, s.requests r' ≠ .asking mbId id retVal p
  | _ => True

/-- A section that works on a record works on one that is not freed. -/
def Live (s : DetSections) : Section → Prop
  | .updatePacketData r => ∀ pm p, s.requests r = .storing pm p → (s.memory p).isSome
  | .convertPacketDataToPM r =>
      ∀ mbId packId retVal p, s.requests r = .asking mbId packId retVal p → (s.memory p).isSome
  | _ => True

/-- What a request in the given phase may rely on. -/
def Holds (s : DetSections) : DetPhase → Prop
  | .storing pm a =>
      s.address pm.middleboxId pm.packetId = some a ∧
        s.recordAt pm.middleboxId pm.packetId = some .new
  | .updated pm | .publishing pm =>
      s.recordAt pm.middleboxId pm.packetId = some (DetLoggerServer.updatePacketData .new pm)
  | .asking mbId packId _ a => s.address mbId packId = some a ∧ ¬ s.InFlight mbId packId
  | _ => True

/-- What holds in every run whose sections are careful. -/
structure Inv (s : DetSections) : Prop where
  live : ∀ mb id a, s.address mb id = some a → a < s.nextAddress ∧ (s.memory a).isSome
  distinct : ∀ mb id mb' id' a, s.address mb id = some a → s.address mb' id' = some a →
    mb = mb' ∧ id = id'
  holds : ∀ r, s.Holds (s.requests r)
  alone : ∀ r r' pm pm', (s.requests r).stores = some pm → (s.requests r').stores = some pm' →
    pm.middleboxId = pm'.middleboxId → pm.packetId = pm'.packetId → r = r'
  unlisted : ∀ mb id, s.InFlight mb id → id ∉ (s.visible mb).packetIdsVector
  found : ∀ mb id a, s.address mb id = some a →
    id ∈ (s.visible mb).packetIdsVector ∨ s.InFlight mb id
  lock : ∀ mb r, s.spdLock mb = some r ↔ ∃ n, s.requests r = .erasing mb n

lemma inv_new : Inv new where
  live _ _ _ h := by cases h
  distinct _ _ _ _ _ h := by cases h
  holds _ := trivial
  alone _ _ _ _ h := by cases h
  unlisted _ _ := by rintro ⟨_, _, h, -⟩; cases h
  found _ _ _ h := by cases h
  lock _ _ := ⟨nofun, by rintro ⟨_, h⟩; cases h⟩

/-- The server has the lists that the requests see, and the records of the packets without a
running store. -/
structure Matches (s : DetSections) (u : DetLoggerServer) : Prop where
  list : ∀ mb, u.list mb = s.visible mb
  record : ∀ mb id, ¬ s.InFlight mb id → u.getPacketData mb id = s.recordAt mb id
  unpublished : ∀ mb id, s.InFlight mb id → u.getPacketData mb id = none

variable {s t : DetSections} {u v : DetLoggerServer} {r : ℕ} {p : DetPhase} {pm : PALSManager}
  {mb mbId : MbId} {id packId : PacketId} {n : UInt32} {retVal : Memory.Mem} {a : ℕ}

/-! ### Requests that come to another phase -/

/-- The phase of a request after one of them has come to a phase. -/
lemma cases_setRequest (s : DetSections) (r : ℕ) (p : DetPhase) (r' : ℕ) :
    r' = r ∧ (s.setRequest r p).requests r' = p ∨
      r' ≠ r ∧ (s.setRequest r p).requests r' = s.requests r' := by
  rcases eq_or_ne r' r with rfl | hne
  · exact .inl ⟨rfl, requests_setRequest_self ..⟩
  · exact .inr ⟨hne, requests_setRequest_of_ne hne p⟩

/-- A running store is the one of a request, or that of another one. -/
lemma inFlight_setRequest : (s.setRequest r p).InFlight mb id ↔
    (∃ pm, p.stores = some pm ∧ pm.middleboxId = mb ∧ pm.packetId = id) ∨
      ∃ r' pm, r' ≠ r ∧ (s.requests r').stores = some pm ∧ pm.middleboxId = mb ∧
        pm.packetId = id := by
  constructor
  · rintro ⟨r', pm, h, hkey⟩
    rcases s.cases_setRequest r p r' with ⟨-, heq⟩ | ⟨hne, heq⟩
    · exact .inl ⟨pm, heq ▸ h, hkey⟩
    · exact .inr ⟨r', pm, hne, heq ▸ h, hkey⟩
  · rintro (⟨pm, h, hkey⟩ | ⟨r', pm, hne, h, hkey⟩)
    · exact ⟨r, pm, by rw [requests_setRequest_self, h], hkey⟩
    · exact ⟨r', pm, by rw [requests_setRequest_of_ne hne, h], hkey⟩

lemma inFlight_of_stores (h : p.stores = (s.requests r).stores) :
    (s.setRequest r p).InFlight mb id ↔ s.InFlight mb id := by
  have hstores : ∀ r', ((s.setRequest r p).requests r').stores = (s.requests r').stores := by
    intro r'
    rcases s.cases_setRequest r p r' with ⟨rfl, heq⟩ | ⟨-, heq⟩
    · rw [heq, h]
    · rw [heq]
  simp only [InFlight, hstores]

lemma inFlight_of_begin (hold : (s.requests r).stores = none) (hnew : p.stores = some pm) :
    (s.setRequest r p).InFlight mb id ↔
      (mb = pm.middleboxId ∧ id = pm.packetId) ∨ s.InFlight mb id := by
  rw [inFlight_setRequest, hnew]
  refine or_congr ⟨?_, ?_⟩ ⟨?_, ?_⟩
  · rintro ⟨pm', h, rfl, rfl⟩
    obtain rfl := Option.some.inj h
    exact ⟨rfl, rfl⟩
  · rintro ⟨rfl, rfl⟩
    exact ⟨pm, rfl, rfl, rfl⟩
  · rintro ⟨r', pm', -, h⟩
    exact ⟨r', pm', h⟩
  · rintro ⟨r', pm', h, hkey⟩
    refine ⟨r', pm', ?_, h, hkey⟩
    rintro rfl
    rw [hold] at h
    cases h

lemma Inv.inFlight_of_end (hs : Inv s) (hold : (s.requests r).stores = some pm)
    (hnew : p.stores = none) :
    (s.setRequest r p).InFlight mb id ↔
      s.InFlight mb id ∧ ¬ (mb = pm.middleboxId ∧ id = pm.packetId) := by
  rw [inFlight_setRequest, hnew]
  constructor
  · rintro (⟨pm', h, -⟩ | ⟨r', pm', hne, h, rfl, rfl⟩)
    · cases h
    · exact ⟨⟨r', pm', h, rfl, rfl⟩, fun hkey => hne (hs.alone r' r pm' pm h hold hkey.1 hkey.2)⟩
  · rintro ⟨⟨r', pm', h, rfl, rfl⟩, hkey⟩
    refine .inr ⟨r', pm', ?_, h, rfl, rfl⟩
    rintro rfl
    obtain rfl : pm = pm' := Option.some.inj (hold.symm.trans h)
    exact hkey ⟨rfl, rfl⟩

/-- The lists that the requests see do not change with a request that does not erase ids. -/
lemma visible_setRequest (hlock : ∀ mb r, s.spdLock mb = some r → ∃ n, s.requests r = .erasing mb n)
    (hold : ∀ mb n, s.requests r ≠ .erasing mb n) :
    (s.setRequest r p).visible = s.visible := by
  funext mb
  have hsame : (s.setRequest r p).spdLock mb = s.spdLock mb := rfl
  rw [visible, visible, hsame, spd_setRequest]
  cases h : s.spdLock mb with
  | none => rfl
  | some r' =>
      obtain ⟨n, hn⟩ := hlock mb r' h
      have hne : r' ≠ r := fun heq => hold mb n (heq ▸ hn)
      simp only [Option.map_some, requests_setRequest_of_ne hne]

/-- Two running stores are for different packets also after a request has come to a phase, if
its store was running before or is the only one for its packet. -/
lemma Inv.alone_setRequest (hs : Inv s)
    (hnew : ∀ pm, p.stores = some pm →
      (s.requests r).stores = some pm ∨ ¬ s.InFlight pm.middleboxId pm.packetId)
    {r₁ r₂ : ℕ} {pm₁ pm₂ : PALSManager}
    (h₁ : ((s.setRequest r p).requests r₁).stores = some pm₁)
    (h₂ : ((s.setRequest r p).requests r₂).stores = some pm₂)
    (hmb : pm₁.middleboxId = pm₂.middleboxId) (hid : pm₁.packetId = pm₂.packetId) : r₁ = r₂ := by
  rcases s.cases_setRequest r p r₁ with ⟨hr₁, heq₁⟩ | ⟨-, heq₁⟩ <;>
    rcases s.cases_setRequest r p r₂ with ⟨hr₂, heq₂⟩ | ⟨-, heq₂⟩ <;>
      rw [heq₁] at h₁ <;> rw [heq₂] at h₂
  · rw [hr₁, hr₂]
  · rcases hnew pm₁ h₁ with h | h
    · rw [hr₁]
      exact hs.alone _ _ _ _ h h₂ hmb hid
    · exact absurd ⟨r₂, pm₂, h₂, hmb.symm, hid.symm⟩ h
  · rcases hnew pm₂ h₂ with h | h
    · rw [hr₂]
      exact hs.alone _ _ _ _ h₁ h hmb hid
    · exact absurd ⟨r₁, pm₁, h₁, hmb, hid⟩ h
  · exact hs.alone _ _ _ _ h₁ h₂ hmb hid

lemma Inv.lock_setRequest (hs : Inv s) (hold : ∀ mb n, s.requests r ≠ .erasing mb n)
    (hnew : ∀ mb n, p ≠ .erasing mb n) (mb : MbId) (r' : ℕ) :
    s.spdLock mb = some r' ↔ ∃ n, (s.setRequest r p).requests r' = .erasing mb n := by
  refine (hs.lock mb r').trans ?_
  rcases s.cases_setRequest r p r' with ⟨rfl, heq⟩ | ⟨-, heq⟩
  · rw [heq]
    exact ⟨fun ⟨n, hn⟩ => absurd hn (hold mb n), fun ⟨n, hn⟩ => absurd hn (hnew mb n)⟩
  · rw [heq]

/-- What a request relies on is about one packet. -/
lemma Holds.congr (h : s.Holds p)
    (hstores : ∀ pm, p.stores = some pm →
      t.address pm.middleboxId pm.packetId = s.address pm.middleboxId pm.packetId ∧
        t.recordAt pm.middleboxId pm.packetId = s.recordAt pm.middleboxId pm.packetId)
    (hasks : ∀ mb id a, s.address mb id = some a → ¬ s.InFlight mb id →
      (∃ retVal, p = .asking mb id retVal a) →
      t.address mb id = some a ∧ ¬ t.InFlight mb id) : t.Holds p := by
  cases p with
  | storing pm a =>
      obtain ⟨haddr, hrecord⟩ := hstores pm rfl
      exact ⟨haddr.trans h.1, hrecord.trans h.2⟩
  | updated pm | publishing pm => exact (hstores pm rfl).2.trans h
  | asking mb id retVal a => exact hasks mb id a h.1 h.2 ⟨retVal, rfl⟩
  | idle | listing | deleting | erasing | answered => trivial

/-- A request that neither begins nor ends a store, and does not erase ids, comes to another
phase of this kind. -/
lemma Inv.setRequest (hs : Inv s) (hold : ∀ mb n, s.requests r ≠ .erasing mb n)
    (hnew : ∀ mb n, p ≠ .erasing mb n) (hstores : p.stores = (s.requests r).stores)
    (hholds : s.Holds p) : Inv (s.setRequest r p) := by
  have hvisible := visible_setRequest (p := p) (fun mb r => (hs.lock mb r).mp) hold
  have hflight : ∀ mb id, (s.setRequest r p).InFlight mb id ↔ s.InFlight mb id :=
    fun _ _ => inFlight_of_stores hstores
  have hcongr : ∀ {p' : DetPhase}, s.Holds p' → (s.setRequest r p).Holds p' := fun h =>
    h.congr (fun _ _ => ⟨rfl, rfl⟩) fun mb id a ha hno _ =>
      ⟨ha, fun h => hno ((hflight mb id).mp h)⟩
  refine ⟨hs.live, hs.distinct, fun r' => ?_, fun r₁ r₂ pm₁ pm₂ => ?_, fun mb id h => ?_,
    fun mb id a ha => ?_, hs.lock_setRequest hold hnew⟩
  · rcases s.cases_setRequest r p r' with ⟨-, heq⟩ | ⟨-, heq⟩
    · rw [heq]
      exact hcongr hholds
    · rw [heq]
      exact hcongr (hs.holds r')
  · exact hs.alone_setRequest fun pm h => .inl (hstores ▸ h)
  · rw [hvisible]
    exact hs.unlisted mb id ((hflight mb id).mp h)
  · rw [hvisible, hflight]
    exact hs.found mb id a ha

lemma Matches.setRequest (hu : s.Matches u) (hs : Inv s)
    (hold : ∀ mb n, s.requests r ≠ .erasing mb n) (hstores : p.stores = (s.requests r).stores) :
    (s.setRequest r p).Matches u where
  list mb := by rw [visible_setRequest (fun mb r => (hs.lock mb r).mp) hold, hu.list]
  record mb id h := hu.record mb id fun h' => h ((inFlight_of_stores hstores).mpr h')
  unpublished mb id h := hu.unpublished mb id ((inFlight_of_stores hstores).mp h)

/-- The requests see the whole list of a middlebox whose lock is free. -/
lemma visible_of_free (hfree : s.spdLock mb = none) : s.visible mb = s.spd mb := by
  rw [visible, hfree]
  rfl

end DetSections

end FtThesis
