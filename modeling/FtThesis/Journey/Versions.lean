/-
Every version of every packet is logged as it left the element that made it.

* `Journey.Right`: a packet in the network carries the tags of its last version;
* `Inv`: the packets, and what was stored of them at the packet logger; `inv_step`: every step
  keeps this;
* `storesVersions`: the versions of a packet are stored one after the other;
* `noneDeleted_of_run`: only the deletions at the packet logger delete something;
* `versions_kept`: from the packet logger, each version comes back as it was.
-/
import FtThesis.Journey.Tags

namespace FtThesis

open Memory PacketLoggerServer Transition

/-! ### A packet and its history -/

/-- The frame of a packet, its id and its determinants at each place. -/
def Journey.Tagged (boxes : MbId → Middlebox) (key : ℕ × ℕ) (j : Journey) : Prop :=
  match j.place with
  | .link => j.frames.getLast? = some j.packet.data ∧
      ((∀ mb ∈ j.way, (boxes mb).vlanLevelOffset = 1) →
        CarriesTags key j.frames.length 1 j.packet.data)
  | .arrived mb | .recorded mb => j.frames.length ≤ 29 ∧
      CarriesTags key j.frames.length (boxes mb).vlanLevelOffset j.packet.data ∧
      ∃ frame, j.frames.getLast? = some frame ∧ CarriesTags key j.frames.length 1 frame
  | .logged mb => j.frames.getLast? = some j.packet.data ∧
      j.packet.packIdAnno = idOf key j.frames.length ∧ j.packet.palsManagerAnno = some dummyPals ∧
      ((boxes mb).vlanLevelOffset = 1 → CarriesTags key j.frames.length 1 j.packet.data)

/-- A packet in the network: it has from `1` to `30` versions, which can be logged and are not
empty, and its tags are those of the last one. -/
structure Journey.Right (boxes : MbId → Middlebox) (key : ℕ × ℕ) (j : Journey) : Prop where
  pos : 1 ≤ j.frames.length
  le : j.frames.length ≤ 30
  nonempty : [] ∉ j.frames
  size : j.packet.data.length < 2 ^ 16
  way : ∀ mb, j.place.middlebox = some mb → mb ∈ j.way
  tagged : j.Tagged boxes key

/-- What is stored of a fragment. -/
def contents (f : SinglePacketVersionData) : ℕ × UInt16 × List UInt8 :=
  (f.version, f.offset, f.data)

/-- What is stored for some frames that are logged as the versions from `1` on. -/
def versionsOf (frames : List (List UInt8)) : List (ℕ × UInt16 × List UInt8) :=
  frames.mapIdx fun i frame => (i + 1, 0, frame)

lemma versionsOf_concat (frames : List (List UInt8)) (frame : List UInt8) :
    versionsOf (frames ++ [frame]) = versionsOf frames ++ [(frames.length + 1, 0, frame)] :=
  List.mapIdx_concat

section

variable (requests : List LogRequest) (b : PacketBase)

lemma storedFragments_store (wpd : WrappedPacketData) :
    storedFragments (requests ++ [.store wpd]) b =
      if base wpd.packetId = b then storedFragments requests b ++ [wpd.fragment]
      else storedFragments requests b := by
  rw [storedFragments, List.filterMap_append, storedFragments]
  exact fragments_append_singleton _ wpd b

lemma storedFragments_deletePackets (ids : List PacketId) :
    storedFragments (requests ++ [.deletePackets ids]) b = storedFragments requests b := by
  rw [storedFragments, List.filterMap_append, storedFragments]
  exact congrArg (fragments · b) (List.append_nil _)

end

namespace Network

/-! ### The invariant -/

/-- What is logged of a packet. -/
def frames (s : Network) (key : ℕ × ℕ) : List (List UInt8) :=
  ((s.journeys key).map Journey.frames).getD []

/-- The producers have tagged as many packets as they have made; each packet in the network is as
it should be, alone in its middlebox, and stored with its versions. -/
structure Inv (boxes : MbId → Middlebox) (s : Network) : Prop where
  producers : ∀ p, s.producers p = ⟨genAfter p (s.made p), true, false⟩
  made : ∀ p, s.made p ≤ seqPeriod
  keys : ∀ key j, s.journeys key = some j → (1 ≤ key.1 ∧ key.1 ≤ 6) ∧ key.2 < s.made key.1
  right : ∀ key j, s.journeys key = some j → j.Right boxes key
  alone : ∀ key key' j j' mb, s.journeys key = some j → s.journeys key' = some j' →
    j.place.middlebox = some mb → j'.place.middlebox = some mb → key = key'
  logger : s.packetLogger = s.requests.foldl processLogRequest .new
  stored : ∀ key, IsKey key →
    (storedFragments s.requests (base (firstId key))).map contents = versionsOf (s.frames key)

variable {boxes : MbId → Middlebox} {s t : Network} {key : ℕ × ℕ} {j j' : Journey} {mb : MbId}

lemma inv_new : Inv boxes new where
  producers _ := rfl
  made _ := Nat.zero_le _
  keys _ _ h := by cases h
  right _ _ h := by cases h
  alone _ _ _ _ _ h := by cases h
  logger := rfl
  stored _ _ := rfl

lemma Inv.isKey (hs : Inv boxes s) (hj : s.journeys key = some j) : IsKey key :=
  ⟨(hs.keys key j hj).1, (hs.keys key j hj).2.trans_le (hs.made _)⟩

lemma frames_of_some (hj : s.journeys key = some j) : s.frames key = j.frames := by
  rw [frames, hj]
  rfl

/-- The determinant logger and what it recorded play no role. -/
lemma Inv.congr (hs : Inv boxes s) (hproducers : t.producers = s.producers)
    (hmade : t.made = s.made) (hjourneys : t.journeys = s.journeys)
    (hlogger : t.packetLogger = s.packetLogger) (hrequests : t.requests = s.requests) :
    Inv boxes t := by
  obtain ⟨producers, packetLogger, detLogger, journeys, made, requests, visits, cleared⟩ := t
  obtain rfl := hproducers
  obtain rfl := hmade
  obtain rfl := hjourneys
  obtain rfl := hlogger
  obtain rfl := hrequests
  exact ⟨hs.producers, hs.made, hs.keys, hs.right, hs.alone, hs.logger, hs.stored⟩

/-- The packet of a key after one of them has changed. -/
lemma cases_setJourney (s : Network) (key : ℕ × ℕ) (j : Journey) (key' : ℕ × ℕ) :
    key' = key ∧ (s.setJourney key j).journeys key' = some j ∨
      key' ≠ key ∧ (s.setJourney key j).journeys key' = s.journeys key' := by
  rcases eq_or_ne key' key with rfl | hne
  · exact .inl ⟨rfl, Function.update_self ..⟩
  · exact .inr ⟨hne, Function.update_of_ne hne ..⟩

/-- A packet changes, and comes to no middlebox that has another one. -/
lemma Inv.alone_setJourney (hs : Inv boxes s)
    (hplace : ∀ mb, j'.place.middlebox = some mb → ∀ key' j'', key' ≠ key →
      s.journeys key' = some j'' → j''.place.middlebox ≠ some mb) (k k' : ℕ × ℕ) (i i' : Journey)
    (mb : MbId) (hi : (s.setJourney key j').journeys k = some i)
    (hi' : (s.setJourney key j').journeys k' = some i') (hmb : i.place.middlebox = some mb)
    (hmb' : i'.place.middlebox = some mb) : k = k' := by
  rcases s.cases_setJourney key j' k with ⟨hk, heq⟩ | ⟨hne, heq⟩ <;>
    rcases s.cases_setJourney key j' k' with ⟨hk', heq'⟩ | ⟨hne', heq'⟩
  · exact hk.trans hk'.symm
  · obtain rfl := Option.some.inj (heq.symm.trans hi)
    exact absurd hmb' (hplace mb hmb k' i' hne' (heq'.symm.trans hi'))
  · obtain rfl := Option.some.inj (heq'.symm.trans hi')
    exact absurd hmb (hplace mb hmb' k i hne (heq.symm.trans hi))
  · exact hs.alone k k' i i' mb (heq.symm.trans hi) (heq'.symm.trans hi') hmb hmb'

/-- A packet changes but for what was logged of it. -/
lemma Inv.setJourney (hs : Inv boxes s) (hj : s.journeys key = some j)
    (hright : j'.Right boxes key) (hframes : j'.frames = j.frames)
    (hplace : ∀ mb, j'.place.middlebox = some mb → ∀ key' j'', key' ≠ key →
      s.journeys key' = some j'' → j''.place.middlebox ≠ some mb) :
    Inv boxes (s.setJourney key j') where
  producers := hs.producers
  made := hs.made
  keys k i hi := by
    rcases s.cases_setJourney key j' k with ⟨rfl, -⟩ | ⟨-, heq⟩
    · exact hs.keys k j hj
    · exact hs.keys k i (heq.symm.trans hi)
  right k i hi := by
    rcases s.cases_setJourney key j' k with ⟨rfl, heq⟩ | ⟨-, heq⟩
    · obtain rfl := Option.some.inj (heq.symm.trans hi)
      exact hright
    · exact hs.right k i (heq.symm.trans hi)
  alone := hs.alone_setJourney hplace
  logger := hs.logger
  stored k hk := by
    refine (hs.stored k hk).trans (congrArg versionsOf ?_)
    rcases s.cases_setJourney key j' k with ⟨rfl, heq⟩ | ⟨-, heq⟩
    · rw [frames_of_some hj, frames_of_some heq, hframes]
    · rw [Network.frames, Network.frames, heq]

/-- A frame is logged as the next version of a packet. -/
lemma stored_concat (hs : Inv boxes s) (hkey : IsKey key) (hn : (s.frames key).length ≤ 29)
    {frame : List UInt8} (hframe : frame.length < 2 ^ 16) {k : ℕ × ℕ} (hk : IsKey k) :
    (storedFragments (s.requests ++
        [.store (wholeFrame (idOf key ((s.frames key).length + 1)) frame hframe)])
        (base (firstId k))).map contents
      = if k = key then versionsOf (s.frames key ++ [frame]) else versionsOf (s.frames k) := by
  have hn' : 1 ≤ (s.frames key).length + 1 ∧ (s.frames key).length + 1 ≤ 31 := by omega
  have hbase : base (wholeFrame (idOf key ((s.frames key).length + 1)) frame hframe).packetId
      = base (firstId key) := base_idOf hkey hn'
  have hversion : contents (wholeFrame (idOf key ((s.frames key).length + 1)) frame hframe).fragment
      = ((s.frames key).length + 1, 0, frame) :=
    congrArg (fun v => (v, (0 : UInt16), frame)) (version_idOf hkey hn')
  rw [storedFragments_store, hbase]
  by_cases heq : k = key
  · rw [if_pos (by rw [heq]), if_pos heq, List.map_append, hs.stored k hk, heq, versionsOf_concat,
      ← hversion]
    rfl
  · rw [if_neg fun h => heq (firstId_inj hkey hk h).symm, if_neg heq, hs.stored k hk]

lemma Inv.logger_request (hs : Inv boxes s) (r : LogRequest) :
    (s.request r).packetLogger = (s.requests ++ [r]).foldl processLogRequest .new := by
  rw [request, hs.logger, List.foldl_append]
  rfl

/-- A request to delete packets. -/
lemma Inv.deletePackets (hs : Inv boxes s) (ids : List PacketId) :
    Inv boxes (s.request (.deletePackets ids)) where
  producers := hs.producers
  made := hs.made
  keys := hs.keys
  right := hs.right
  alone := hs.alone
  logger := hs.logger_request _
  stored k hk := by
    rw [request, storedFragments_deletePackets]
    exact hs.stored k hk

section

variable (hs : Inv boxes s) (hkey : IsKey key) (hn : (s.frames key).length ≤ 29)
  {frame : List UInt8} (hframe : frame.length < 2 ^ 16) (hright : j'.Right boxes key)
  (hframes : j'.frames = s.frames key ++ [frame])
  (hplace : ∀ mb, j'.place.middlebox = some mb → ∀ key' j'', key' ≠ key →
    s.journeys key' = some j'' → j''.place.middlebox ≠ some mb)

include hs hkey hn hright hframes hplace

/-- A packet gets one more version, by a producer (which may be a new packet) or a middlebox. -/
lemma Inv.store (producers : ℕ → PacketIdEncap) (made : ℕ → ℕ)
    (hproducers : ∀ p, producers p = ⟨genAfter p (made p), true, false⟩)
    (hmade : ∀ p, s.made p ≤ made p ∧ made p ≤ seqPeriod) (hlt : key.2 < made key.1) :
    let wpd := wholeFrame (idOf key ((s.frames key).length + 1)) frame hframe
    Inv boxes { (s.request (.store wpd)).setJourney key j' with
      producers := producers
      made := made } where
  producers := hproducers
  made p := (hmade p).2
  keys k i hi := by
    rcases s.cases_setJourney key j' k with ⟨rfl, -⟩ | ⟨-, heq⟩
    · exact ⟨hkey.1, hlt⟩
    · obtain ⟨hp, hn⟩ := hs.keys k i (heq.symm.trans hi)
      exact ⟨hp, hn.trans_le (hmade k.1).1⟩
  right k i hi := by
    rcases s.cases_setJourney key j' k with ⟨rfl, heq⟩ | ⟨-, heq⟩
    · obtain rfl := Option.some.inj (heq.symm.trans hi)
      exact hright
    · exact hs.right k i (heq.symm.trans hi)
  alone := hs.alone_setJourney hplace
  logger := hs.logger_request
    (.store (wholeFrame (idOf key ((s.frames key).length + 1)) frame hframe))
  stored k hk := by
    refine (stored_concat hs hkey hn hframe hk).trans ?_
    have hafter : (s.setJourney key j').frames k
        = if k = key then s.frames key ++ [frame] else s.frames k := by
      rcases s.cases_setJourney key j' k with ⟨rfl, heq⟩ | ⟨hne, heq⟩
      · rw [if_pos rfl, frames_of_some heq, hframes]
      · rw [if_neg hne, Network.frames, Network.frames, heq]
    refine Eq.trans ?_ (congrArg versionsOf hafter).symm
    split_ifs <;> rfl

/-- A middlebox logs the next version of its packet. -/
lemma Inv.log (hj : s.journeys key = some j) :
    let wpd := wholeFrame (idOf key ((s.frames key).length + 1)) frame hframe
    Inv boxes ((s.request (.store wpd)).setJourney key j') :=
  hs.store hkey hn hframe hright hframes hplace s.producers s.made hs.producers
    (fun p => ⟨le_rfl, hs.made p⟩) (hs.keys key j hj).2

end

/-! ### Steps -/

/-- A producer tags a packet. -/
lemma Inv.enter (hs : Inv boxes s) {p : ℕ} {packet : Packet} (hp : 1 ≤ p ∧ p ≤ 6)
    (hmade : s.made p < seqPeriod) (hlen : 16 ≤ packet.data.length)
    (hsize : packet.data.length + 12 < 2 ^ 16) : Inv boxes (s.enter p packet) := by
  have hkey : IsKey (p, s.made p) := ⟨hp, hmade⟩
  have hnone : s.journeys (p, s.made p) = none := by
    rw [Option.eq_none_iff_forall_ne_some]
    exact fun j hj => (hs.keys _ j hj).2.false
  have hempty : s.frames (p, s.made p) = [] := by
    rw [frames, hnone]
    rfl
  obtain ⟨q, hq, hcarries, heq⟩ := enter_eq (n := s.made p) hp hlen hsize
  have hright : Journey.Right boxes (p, s.made p) ⟨q, .link, [q.data], []⟩ :=
    { pos := le_rfl
      le := Nat.le_of_ble_eq_true rfl
      nonempty := fun h => hcarries.ne_nil (List.mem_singleton.mp h).symm
      size := hq
      way := fun _ h => by cases h
      tagged := ⟨rfl, fun _ => hcarries⟩ }
  have hproducers : ∀ p', Function.update s.producers p ⟨genAfter p (s.made p + 1), true, false⟩ p'
      = ⟨genAfter p' (Function.update s.made p (s.made p + 1) p'), true, false⟩ := fun p' => by
    rcases eq_or_ne p' p with rfl | hne
    · rw [Function.update_self, Function.update_self]
    · rw [Function.update_of_ne hne, Function.update_of_ne hne, hs.producers]
  have hcounts : ∀ p', s.made p' ≤ Function.update s.made p (s.made p + 1) p' ∧
      Function.update s.made p (s.made p + 1) p' ≤ seqPeriod := fun p' => by
    rcases eq_or_ne p' p with rfl | hne
    · rw [Function.update_self]
      omega
    · rw [Function.update_of_ne hne]
      exact ⟨le_rfl, hs.made p'⟩
  have hinv := hs.store hkey (by rw [hempty]; exact Nat.zero_le _) hq hright (by rw [hempty]; rfl)
    (fun _ h => by cases h) _ _ hproducers hcounts (by simp)
  have hid : idOf (p, s.made p) 1 = firstId (p, s.made p) := UInt64.add_zero _
  simp only [hempty, List.length_nil, Nat.zero_add, hid] at hinv
  rw [Network.enter, hs.producers p, heq]
  exact hinv

/-- A packet that has not passed the `IncreaseVersionNumber` of its middlebox. -/
lemma tagged_of_before (hright : j.Right boxes key)
    (hplace : j.place = .arrived mb ∨ j.place = .recorded mb) : j.frames.length ≤ 29 ∧
      CarriesTags key j.frames.length (boxes mb).vlanLevelOffset j.packet.data ∧
      ∃ frame, j.frames.getLast? = some frame ∧ CarriesTags key j.frames.length 1 frame := by
  have htagged := hright.tagged
  rw [Journey.Tagged] at htagged
  rcases hplace with hplace | hplace <;> rwa [hplace] at htagged

section

variable (hs : Inv boxes s) (hj : s.journeys key = some j)

include hs hj

/-- The first two elements store the id of the packet. -/
lemma record_spec (hplace : j.place = .arrived mb) :
    ∃ q : Packet, q.data = j.packet.data ∧ s.record boxes key j mb =
      { s.setJourney key { j with packet := q, place := .recorded mb } with
        detLogger := s.detLogger.processStoreRequest (masterRecord mb (idOf key j.frames.length))
        visits := Function.update s.visits mb (s.visits mb ++
          [⟨key, j.frames.length, j.frames.getLast?.getD []⟩]) } := by
  have hright := hs.right key j hj
  obtain ⟨hle, hcarries, -⟩ := tagged_of_before hright (.inl hplace)
  obtain ⟨q, hq, heq⟩ := record_eq mb (hs.isKey hj) ⟨hright.pos, by omega⟩ hcarries
  refine ⟨q, hq, ?_⟩
  rw [record, heq]
  rfl

/-- The next elements log the next version. -/
lemma log_spec (hplace : j.place = .recorded mb) :
    ∃ (q : Packet) (hq : q.data.length < 2 ^ 16), q.data ≠ [] ∧ j.frames.length ≤ 29 ∧
      q.packIdAnno = idOf key (j.frames.length + 1) ∧ q.palsManagerAnno = some dummyPals ∧
      ((boxes mb).vlanLevelOffset = 1 → CarriesTags key (j.frames.length + 1) 1 q.data) ∧
      s.log boxes key j mb =
        (s.request (.store (wholeFrame (idOf key (j.frames.length + 1)) q.data hq))).setJourney key
          { j with packet := q, place := .logged mb, frames := j.frames ++ [q.data] } := by
  have hright := hs.right key j hj
  obtain ⟨hle, hcarries, -⟩ := tagged_of_before hright (.inr hplace)
  obtain ⟨q, hq, hne, hid, hpals, htags, heq⟩ :=
    log_eq mb (hs.isKey hj) ⟨hright.pos, by omega⟩ hcarries hright.size
  refine ⟨q, hq, hne, hle, hid, hpals, htags, ?_⟩
  rw [Network.log, heq]
  rfl

/-- The last element stores the id of the new version. -/
lemma forward_spec (hplace : j.place = .logged mb) :
    ∃ q : Packet, q.data = j.packet.data ∧ s.forward boxes key j mb =
      { s.setJourney key { j with packet := q, place := .link } with
        detLogger := s.detLogger.processStoreRequest
          (masterRecord mb (idOf key j.frames.length)) } := by
  obtain ⟨-, hid, hpals, -⟩ : j.frames.getLast? = some j.packet.data ∧
      j.packet.packIdAnno = idOf key j.frames.length ∧ j.packet.palsManagerAnno = some dummyPals ∧
      ((boxes mb).vlanLevelOffset = 1 → CarriesTags key j.frames.length 1 j.packet.data) := by
    have htagged := (hs.right key j hj).tagged
    rwa [Journey.Tagged, hplace] at htagged
  refine ⟨{ j.packet with palsManagerAnno := none }, rfl, ?_⟩
  rw [forward, forward_eq mb hpals, ← hid]
  rfl

/-- A packet stays where it is. -/
lemma alone_of_same (hsame : j'.place.middlebox = j.place.middlebox) (mb : MbId)
    (hmb : j'.place.middlebox = some mb) (key' : ℕ × ℕ) (j'' : Journey) (hne : key' ≠ key)
    (hj'' : s.journeys key' = some j'') : j''.place.middlebox ≠ some mb := fun h =>
  hne (hs.alone key' key j'' j mb hj'' hj h (hsame ▸ hmb))

end

/-- A packet comes to a middlebox with its tags. -/
lemma inv_arrive (hs : Inv boxes s) (hp : s.Permits boxes (.arrive key mb))
    (h : s.step boxes (.arrive key mb) t) : Inv boxes t := by
  obtain ⟨j, hj, hplace, hfree, rfl⟩ := h
  obtain ⟨hle, hnew, hway⟩ := hp j hj
  have hright := hs.right key j hj
  obtain ⟨hlast, hcarries⟩ : j.frames.getLast? = some j.packet.data ∧
      ((∀ mb ∈ j.way, (boxes mb).vlanLevelOffset = 1) →
        CarriesTags key j.frames.length 1 j.packet.data) := by
    have htagged := hright.tagged
    rwa [Journey.Tagged, hplace] at htagged
  refine hs.setJourney hj ?_ rfl fun mb' hmb' key' j' _ hj' => ?_
  · exact
      { pos := hright.pos
        le := hright.le
        nonempty := hright.nonempty
        size := (length_receivedAt_le _).trans_lt hright.size
        way := fun mb' hmb' => by
          obtain rfl := Option.some.inj hmb'
          exact List.mem_append_right _ List.mem_cons_self
        tagged := ⟨hle, (hcarries hway).received (boxes mb).offset_le, _, hlast, hcarries hway⟩ }
  · obtain rfl := Option.some.inj hmb'
    exact hfree key' j' hj'

/-- The first elements store the id and keep the frame. -/
lemma inv_record (hs : Inv boxes s) (h : s.step boxes (.record key) t) : Inv boxes t := by
  obtain ⟨j, mb, hj, hplace, rfl⟩ := h
  obtain ⟨q, hq, heq⟩ := record_spec hs hj hplace
  have hright := hs.right key j hj
  obtain ⟨hle, hcarries, hlast⟩ := tagged_of_before hright (.inl hplace)
  have hafter : Journey.Right boxes key { j with packet := q, place := .recorded mb } :=
    { pos := hright.pos
      le := hright.le
      nonempty := hright.nonempty
      size := hq ▸ hright.size
      way := fun mb' hmb' => hright.way mb' (by rw [hplace]; exact hmb')
      tagged := ⟨hle, hq ▸ hcarries, hlast⟩ }
  have hinv := hs.setJourney hj hafter rfl (alone_of_same hs hj (by rw [hplace]; rfl))
  rw [heq]
  exact hinv.congr rfl rfl rfl rfl rfl

/-- The next elements log one more version. -/
lemma inv_log (hs : Inv boxes s) (h : s.step boxes (.log key) t) : Inv boxes t := by
  obtain ⟨j, mb, hj, hplace, rfl⟩ := h
  obtain ⟨q, hq, hne, hle, hid, hpals, htags, heq⟩ := log_spec hs hj hplace
  have hright := hs.right key j hj
  have hframes := frames_of_some hj
  have hlength : (j.frames ++ [q.data]).length = j.frames.length + 1 := by
    rw [List.length_append, List.length_singleton]
  have hafter : Journey.Right boxes key
      { j with packet := q, place := .logged mb, frames := j.frames ++ [q.data] } :=
    { pos := hlength ▸ Nat.succ_pos _
      le := hlength ▸ Nat.succ_le_succ hle
      nonempty := fun h => (List.mem_append.mp h).elim hright.nonempty
        fun h => hne (List.mem_singleton.mp h).symm
      size := hq
      way := fun mb' hmb' => hright.way mb' (by rw [hplace]; exact hmb')
      tagged := ⟨List.getLast?_concat, hlength ▸ hid, hpals, hlength ▸ htags⟩ }
  have hinv := hs.log (hs.isKey hj) (by rwa [hframes]) hq hafter (by rw [hframes])
    (alone_of_same hs hj (by rw [hplace]; rfl)) hj
  simp only [hframes] at hinv
  rw [heq]
  exact hinv

/-- The last element stores the new id, and the packet leaves the middlebox. -/
lemma inv_forward (hs : Inv boxes s) (h : s.step boxes (.forward key) t) : Inv boxes t := by
  obtain ⟨j, mb, hj, hplace, rfl⟩ := h
  obtain ⟨q, hq, heq⟩ := forward_spec hs hj hplace
  have hright := hs.right key j hj
  have htagged := hright.tagged
  rw [Journey.Tagged, hplace] at htagged
  have hmb : mb ∈ j.way := hright.way mb (by rw [hplace]; rfl)
  have hafter : Journey.Right boxes key { j with packet := q, place := .link } :=
    { pos := hright.pos
      le := hright.le
      nonempty := hright.nonempty
      size := hq ▸ hright.size
      way := fun _ hmb' => by cases hmb'
      tagged := ⟨hq ▸ htagged.1, fun hway => hq ▸ htagged.2.2.2 (hway mb hmb)⟩ }
  have hinv := hs.setJourney hj hafter rfl fun _ hmb' => by cases hmb'
  rw [heq]
  exact hinv.congr rfl rfl rfl rfl rfl

/-- **One step.**  Every step that is permitted keeps the invariant. -/
lemma inv_step {a : Action} (hs : Inv boxes s) (hp : s.Permits boxes a) (h : s.step boxes a t) :
    Inv boxes t := by
  cases a with
  | enter p packet =>
      obtain rfl := h
      obtain ⟨hproducer, hmade, hlen, hsize⟩ := hp
      exact hs.enter hproducer hmade hlen hsize
  | arrive key mb => exact inv_arrive hs hp h
  | record key => exact inv_record hs h
  | log key => exact inv_log hs h
  | forward key => exact inv_forward hs h
  | deletePackets ids =>
      obtain rfl := h
      exact hs.deletePackets ids
  | deleteFirstPackets mb n =>
      obtain rfl := h
      exact hs.congr rfl rfl rfl rfl rfl

/-- The steps that are permitted. -/
def Steps (boxes : MbId → Middlebox) : Network → Action → Network → Prop :=
  When (Permits boxes) (step boxes)

lemma inv_of_run {as : List Action} (h : Run (Steps boxes) new as s) : Inv boxes s :=
  h.invariant (fun _ _ _ hs hst => inv_step hs hst.1 hst.2) inv_new

/-! ### The packet logger -/

lemma map_version_stored (hs : Inv boxes s) (hkey : IsKey key) :
    (storedFragments s.requests (base (firstId key))).map (·.version)
      = List.range' 1 (s.frames key).length := by
  have hversions : (storedFragments s.requests (base (firstId key))).map (·.version)
      = (versionsOf (s.frames key)).map Prod.fst := by
    rw [← hs.stored key hkey, List.map_map]
    rfl
  rw [hversions]
  refine List.ext_getElem (by simp [versionsOf]) fun i hi hi' => ?_
  simp [versionsOf, Nat.add_comm]

/-- The versions of a packet of which nothing was deleted are stored one after the other. -/
lemma storesVersions (hs : Inv boxes s) (hkey : IsKey key)
    (hkept : NoneDeleted s.requests (base (firstId key))) :
    StoresVersions .new s.requests (base (firstId key)) (s.frames key).length :=
  ⟨rfl, hkept, (map_version_stored hs hkey).symm ▸ List.Perm.refl _⟩

/-- A version is put together of the fragments of the versions up to it, in their order. -/
lemma replyFragments_idOf (hs : Inv boxes s) (hkey : IsKey key)
    (hkept : NoneDeleted s.requests (base (firstId key))) (srt : VersionSort) {n : ℕ}
    (hn : 1 ≤ n ∧ n ≤ 31) :
    replyFragments srt s.packetLogger (idOf key n)
      = (storedFragments s.requests (base (firstId key))).take n := by
  set stored := storedFragments s.requests (base (firstId key)) with hstored
  have hmap : stored.map (·.version) = List.range' 1 (s.frames key).length :=
    map_version_stored hs hkey
  have hsorted : stored.Pairwise fun f g => f.version < g.version :=
    List.pairwise_map.mp (hmap ▸ List.pairwise_lt_range' ..)
  have hnodup : ((srt.sort stored).map (·.version)).Nodup :=
    ((srt.perm _).map _).nodup_iff.mpr (hmap ▸ List.nodup_range' ..)
  have hsort : srt.sort stored = stored :=
    SortedLists.eq_of_perm (srt.perm _) (SortedLists.pairwise_lt (srt.sorted _) hnodup) hsorted
  have hcount : stored.countP (·.version ≤ n) = min n stored.length := by
    have hlength : stored.length = (s.frames key).length := by
      simpa using congrArg List.length hmap
    calc stored.countP (·.version ≤ n) = (stored.map (·.version)).countP (· ≤ n) := by
          rw [List.countP_map]
          rfl
      _ = min n stored.length := by rw [hmap, countP_range'_le, hlength]
  calc replyFragments srt s.packetLogger (idOf key n) = upTo n (srt.sort stored) := by
        rw [hs.logger, replyFragments_eq (storesVersions hs hkey hkept) srt (base_idOf hkey hn),
          version_idOf hkey hn]
    _ = stored.take (stored.countP (·.version ≤ n)) := by
        rw [hsort, upTo, SortedLists.filter_le_eq_take (hsorted.imp le_of_lt)]
    _ = stored.take n := by rw [hcount, ← List.take_eq_take_min]

/-- The last fragment from the beginning of a packet decides on its first bytes. -/
lemma read_copyVersions_concat {f : SinglePacketVersionData} (hoffset : f.offset = 0)
    (l : List SinglePacketVersionData) (ret : Mem × ℕ) :
    read ((l ++ [f]).foldl copyVersion ret).1 0 f.data.length = f.data := by
  rw [List.foldl_append, List.foldl_cons, List.foldl_nil, copyVersion, hoffset]
  exact read_memcpy_self _ 0 f.data

/-- The length is that of the longest fragment. -/
lemma length_copyVersions (l : List SinglePacketVersionData) (ret : Mem × ℕ) :
    (l.foldl copyVersion ret).2 = (l.map fun f => f.data.length).foldl max ret.2 := by
  induction l generalizing ret with
  | nil => rfl
  | cons f l ih =>
      rw [List.foldl_cons, ih, copyVersion, List.map_cons, List.foldl_cons, f.length_data]

/-- The fragments are as long as the frames. -/
lemma map_length_stored (hs : Inv boxes s) (hkey : IsKey key) (n : ℕ) :
    ((storedFragments s.requests (base (firstId key))).take n).map (fun f => f.data.length)
      = ((s.frames key).take n).map List.length := by
  have hlengths : (versionsOf (s.frames key)).map (fun c => c.2.2.length)
      = (s.frames key).map List.length :=
    List.ext_getElem (by simp [versionsOf]) fun i hi hi' => by simp [versionsOf]
  rw [List.map_take, List.map_take, ← hlengths, ← hs.stored key hkey, List.map_map]
  rfl

/-- What is stored for the first versions of a packet. -/
lemma stored_take (hs : Inv boxes s) (hkey : IsKey key) {n : ℕ} {frame : List UInt8}
    (hframe : (s.frames key)[n]? = some frame) :
    ∃ f : SinglePacketVersionData, f.offset = 0 ∧ f.data = frame ∧
      (storedFragments s.requests (base (firstId key))).take (n + 1)
        = (storedFragments s.requests (base (firstId key))).take n ++ [f] := by
  have hcontents := congrArg (·[n]?) (hs.stored key hkey)
  simp only [List.getElem?_map, versionsOf, List.getElem?_mapIdx, hframe, Option.map_some]
    at hcontents
  obtain ⟨f, hf, hcontents⟩ := Option.map_eq_some_iff.mp hcontents
  refine ⟨f, congrArg (·.2.1) hcontents, congrArg (·.2.2) hcontents, ?_⟩
  rw [List.take_add_one, hf, Option.toList_some]

/-! ### Deletions -/

/-- What a step asks of the packet logger: to store something, or to delete packets, or nothing. -/
lemma requests_step {a : Action} (h : step boxes s a t) :
    t.requests = s.requests ∨ (∃ wpd, t.requests = s.requests ++ [.store wpd]) ∨
      ∃ ids, a = .deletePackets ids := by
  cases a with
  | enter p packet =>
      obtain rfl := h
      rw [enter]
      rcases (s.producers p).smaction packet with ⟨q, _ | wpd, e⟩
      · exact .inl rfl
      · exact .inr (.inl ⟨wpd, rfl⟩)
  | arrive key mb =>
      obtain ⟨j, -, -, -, rfl⟩ := h
      exact .inl rfl
  | record key =>
      obtain ⟨j, mb, -, -, rfl⟩ := h
      exact .inl rfl
  | log key =>
      obtain ⟨j, mb, -, -, rfl⟩ := h
      rw [log]
      rcases ((boxes mb).elements mb).ivn.smaction (((boxes mb).elements mb).pp1.smaction
        PALSManager.new ((boxes mb).work j.packet)) with ⟨q, _ | ⟨_ | client, wpd⟩⟩
      · exact .inl rfl
      · exact .inl rfl
      · simp only [sends]
        split_ifs
        · exact .inr (.inl ⟨wpd, rfl⟩)
        · exact .inl rfl
  | forward key =>
      obtain ⟨j, mb, -, -, rfl⟩ := h
      exact .inl rfl
  | deletePackets ids => exact .inr (.inr ⟨ids, rfl⟩)
  | deleteFirstPackets mbId numPackets =>
      obtain rfl := h
      exact .inl rfl

/-- In a run without deletions at the packet logger nothing is deleted. -/
lemma noneDeleted_of_run {as : List Action} (h : Run (Steps boxes) new as s)
    (has : ∀ ids, .deletePackets ids ∉ as) (b : PacketBase) : NoneDeleted s.requests b := by
  suffices hnone : ∀ ids, .deletePackets ids ∉ s.requests from
    fun ids hids => absurd hids (hnone ids)
  induction h with
  | nil => exact fun _ => List.not_mem_nil
  | @snoc as t u a _ hlast ih =>
      intro ids hids
      have hbefore := ih fun ids hids => has ids (List.mem_append_left _ hids)
      rcases requests_step hlast.2 with hsame | ⟨wpd, hstore⟩ | ⟨ids', rfl⟩
      · exact hbefore ids (hsame ▸ hids)
      · rw [hstore, List.mem_append] at hids
        rcases hids with hids | hids
        · exact hbefore ids hids
        · cases List.mem_singleton.mp hids
      · exact has ids' (List.mem_append_right _ List.mem_cons_self)

/-! ### The versions -/

/-- The packet logger has the frame as version `n` of the packet: it is what a request with its id
begins with, and the length is that of the longest version up to it. -/
def HasVersion (s : Network) (srt : VersionSort) (key : ℕ × ℕ) (n : ℕ) (frame : List UInt8) :
    Prop :=
  ∀ retVal, ∃ reply, getPacket srt s.packetLogger (idOf key n) retVal
      = (true, reply, (((s.frames key).take n).map List.length).foldl max 0) ∧
    read reply 0 frame.length = frame

lemma hasVersion (hs : Inv boxes s) (hj : s.journeys key = some j)
    (hkept : NoneDeleted s.requests (base (firstId key))) (srt : VersionSort) {n : ℕ}
    {frame : List UInt8} (hframe : j.frames[n]? = some frame) :
    s.HasVersion srt key (n + 1) frame := by
  intro retVal
  have hkey := hs.isKey hj
  have hframes := frames_of_some hj
  have hlt : n < j.frames.length := (List.getElem?_eq_some_iff.mp hframe).1
  have hn : 1 ≤ n + 1 ∧ n + 1 ≤ 31 := by
    have := (hs.right key j hj).le
    omega
  obtain ⟨f, hoffset, hdata, htake⟩ := stored_take hs hkey (hframes ▸ hframe)
  have hstores := storesVersions hs hkey hkept
  have hsome : (s.packetLogger.packetsVersions (base (idOf key (n + 1)))).isSome = true := by
    have hne : storedFragments s.requests (base (firstId key)) ≠ [] := fun hnil => by
      rw [hnil] at htake
      simp at htake
    rw [hs.logger, base_idOf hkey hn, isSome_packetsVersions hstores]
    simpa using hne
  refine ⟨(((storedFragments s.requests (base (firstId key))).take (n + 1)).foldl copyVersion
    (retVal, 0)).1, ?_, ?_⟩
  · rw [getPacket_eq, hsome, replyFragments_idOf hs hkey hkept srt hn, ← map_length_stored hs hkey]
    exact congrArg (true, ·) (Prod.ext rfl (length_copyVersions _ _))
  · rw [htake, ← hdata]
    exact read_copyVersions_concat hoffset _ _

/-- **Every version is kept.**  In every run of the network in which producers with ids left tag
frames that can be logged, and a packet comes to a middlebox with its TSA tag, for the first time,
and with at most `28` of them behind it (`Permits`), for every packet of which nothing was deleted:
the packet logger has each of its versions as the frame that left the element that made it; a
packet between two middleboxes is the last of these frames and, as long as it has its TSA tag, the
id of its last version is read from its bytes; and no other packet in the network has ids with its
base. -/
theorem versions_kept {as : List Action} (h : Run (Steps boxes) new as s)
    (hj : s.journeys key = some j) (hkept : NoneDeleted s.requests (base (firstId key)))
    (srt : VersionSort) :
    (∀ n frame, j.frames[n]? = some frame → s.HasVersion srt key (n + 1) frame) ∧
      (j.place = .link → j.frames.getLast? = some j.packet.data ∧
        ((∀ mb ∈ j.way, (boxes mb).vlanLevelOffset = 1) →
          ∀ (e : PreparePacket) (getPals), e.vlanLevelOffset = 1 →
            ReadsId e getPals j.packet.data (idOf key j.frames.length))) ∧
      ∀ key' j', s.journeys key' = some j' → base (firstId key') = base (firstId key) →
        key' = key := by
  have hs := inv_of_run h
  have hkey := hs.isKey hj
  have hright := hs.right key j hj
  refine ⟨fun n frame hframe => hasVersion hs hj hkept srt hframe, fun hplace => ?_,
    fun key' j' hj' hbase => firstId_inj (hs.isKey hj') hkey hbase⟩
  obtain ⟨hlast, hcarries⟩ : j.frames.getLast? = some j.packet.data ∧
      ((∀ mb ∈ j.way, (boxes mb).vlanLevelOffset = 1) →
        CarriesTags key j.frames.length 1 j.packet.data) := by
    have htagged := hright.tagged
    rwa [Journey.Tagged, hplace] at htagged
  refine ⟨hlast, fun hway e getPals he => ?_⟩
  exact (hcarries hway).readsId hkey ⟨hright.pos, hright.le.trans (by decide)⟩ he le_rfl getPals

/-! ### Two packets -/

/-- Middleboxes with nothing between their elements, and the TSA tag in front. -/
def withTsaTag (_ : MbId) : Middlebox := .plain 1 le_rfl

/-- What is done with the packet of the key. -/
def withJourney (s : Network) (key : ℕ × ℕ) (f : Journey → Network) : Network :=
  match s.journeys key with
  | some j => f j
  | none => s

/-- The packet comes to the middlebox `6`. -/
def atSix (s : Network) (key : ℕ × ℕ) : Network :=
  s.withJourney key fun j => s.setJourney key
    { j with packet := receivedAt 1 j.packet, place := .arrived 6, way := j.way ++ [6] }

/-- The packet, at the middlebox `6`, passes its elements. -/
def throughSix (s : Network) (key : ℕ × ℕ) : Network :=
  let recorded := s.withJourney key fun j => s.record withTsaTag key j 6
  let logged := recorded.withJourney key fun j => recorded.log withTsaTag key j 6
  logged.withJourney key fun j => logged.forward withTsaTag key j 6

/-- Two producers have tagged a frame each, and the first one has come to the middlebox `6`. -/
def arrived : Network := ((new.enter 1 shortPacket).enter 2 shortPacket).atSix (1, 0)

/-- The first frame has passed the middlebox, and the second one has come to it. -/
def secondArrived : Network := (arrived.throughSix (1, 0)).atSix (2, 0)

/-- What is true of all other packets is so of all, if it is true of the changed one. -/
lemma forall_journeys_update {P : Journey → Prop} {f : ℕ × ℕ → Option Journey}
    (hf : ∀ key', key' ≠ key → ∀ j', f key' = some j' → P j') (hj : P j) (key' : ℕ × ℕ)
    (j' : Journey) (h : Function.update f key (some j) key' = some j') : P j' := by
  rcases eq_or_ne key' key with rfl | hne
  · rw [Function.update_self] at h
    exact Option.some.inj h ▸ hj
  · rw [Function.update_of_ne hne] at h
    exact hf key' hne j' h

lemma run_arrived : Run (Steps withTsaTag) new
    [.enter 1 shortPacket, .enter 2 shortPacket, .arrive (1, 0) 6] arrived := by
  refine .cons ⟨?_, rfl⟩ (.cons ⟨?_, rfl⟩ (.single ⟨?_, _, rfl, rfl, ?_, rfl⟩))
  · exact ⟨by decide, seqPeriod_pos, by decide, by decide⟩
  · exact ⟨by decide, seqPeriod_pos, by decide, by decide⟩
  · intro j hj
    obtain rfl := Option.some.inj hj
    exact ⟨Nat.le_of_ble_eq_true rfl, List.not_mem_nil, fun _ h => absurd h List.not_mem_nil⟩
  · refine forall_journeys_update (fun key' _ => forall_journeys_update (fun key' _ j' h => ?_) ?_
      key') ?_
    · cases h
    · exact fun h => by cases h
    · exact fun h => by cases h

lemma run_secondArrived : Run (Steps withTsaTag) arrived
    [.record (1, 0), .log (1, 0), .forward (1, 0), .arrive (2, 0) 6] secondArrived := by
  refine .cons ⟨trivial, _, 6, rfl, rfl, rfl⟩ (.cons ⟨trivial, _, 6, rfl, rfl, rfl⟩
    (.cons ⟨trivial, _, 6, rfl, rfl, rfl⟩ (.single ⟨?_, _, rfl, rfl, ?_, rfl⟩)))
  · intro j hj
    obtain rfl := Option.some.inj hj
    exact ⟨Nat.le_of_ble_eq_true rfl, List.not_mem_nil, fun _ h => absurd h List.not_mem_nil⟩
  · refine forall_journeys_update (fun key' hne j' h => ?_) ?_
    · -- before it came to the middlebox, the first packet changed nothing about the second one
      obtain ⟨j₁, j₂, hlink, hentered⟩ : ∃ j₁ j₂ : Journey, j₂.place = .link ∧ Function.update
          (Function.update (fun _ => none) (1, 0) (some j₁)) (2, 0) (some j₂) key' = some j' := by
        refine ⟨_, _, ?_, ((Function.update_of_ne hne _ _).trans
          ((Function.update_of_ne hne _ _).trans (Function.update_of_ne hne _ _))).symm.trans h⟩
        rfl
      rw [Function.update_apply, Function.update_of_ne hne] at hentered
      split_ifs at hentered
      obtain rfl := Option.some.inj hentered
      rw [hlink]
      exact fun h => by cases h
    · exact fun h => by cases h

/-- Two frames that two producers tag, and that pass the middlebox `6` one after the other. -/
theorem versions_kept_mb6 : ∃ s, Run (Steps withTsaTag) new
      ([.enter 1 shortPacket, .enter 2 shortPacket, .arrive (1, 0) 6] ++
        [.record (1, 0), .log (1, 0), .forward (1, 0), .arrive (2, 0) 6] ++
        [.record (2, 0), .log (2, 0), .forward (2, 0)]) s ∧
    ∀ p ∈ [1, 2], ∃ j, s.journeys (p, 0) = some j ∧ j.frames.length = 2 ∧
      (∀ n frame, j.frames[n]? = some frame → s.HasVersion .stable (p, 0) (n + 1) frame) ∧
      ReadsId ⟨6, .master, 1⟩ (fun _ _ => dummyPals) j.packet.data (idOf (p, 0) 2) := by
  obtain ⟨s, hpass, hjourneys⟩ : ∃ s,
      Run (Steps withTsaTag) secondArrived [.record (2, 0), .log (2, 0), .forward (2, 0)] s ∧
      ∀ p ∈ [1, 2], ∃ j, s.journeys (p, 0) = some j ∧ j.frames.length = 2 ∧ j.place = .link := by
    refine ⟨_, .cons ⟨trivial, _, 6, rfl, rfl, rfl⟩ (.cons ⟨trivial, _, 6, rfl, rfl, rfl⟩
      (.single ⟨trivial, _, 6, rfl, rfl, rfl⟩)), List.forall_mem_cons.mpr ⟨⟨_, rfl, rfl, rfl⟩,
        List.forall_mem_singleton.mpr ⟨_, rfl, rfl, rfl⟩⟩⟩
  have hrun := (run_arrived.append run_secondArrived).append hpass
  refine ⟨s, hrun, fun p hp => ?_⟩
  obtain ⟨j, hj, hlen, hlink⟩ := hjourneys p hp
  obtain ⟨hversions, hpacket, -⟩ :=
    versions_kept hrun hj (noneDeleted_of_run hrun (by simp) _) .stable
  refine ⟨j, hj, hlen, hversions, ?_⟩
  rw [← hlen]
  exact (hpacket hlink).2 (fun _ _ => rfl) ⟨6, .master, 1⟩ (fun _ _ => dummyPals) rfl

end Network

end FtThesis
