/-
A slave after the packets of its master were replayed to it.

The packet logger sends a slave the packets that its master has recorded, with the ids that the
determinant logger lists as their first ones.  The slave takes them from its `Socket`, reads their
ids, asks for the determinants that the master has stored, and stores the ids in its own list.

* `Slave`, `Slave.receive`: a slave, and what it does with a frame;
* `answerPals`, `answerPals_eq`: the determinants that a slave gets;
* `firstVersions_visits`: the ids that are replayed;
* `storedPacket_of_visited`: what the packet logger sends for one of them;
* `slave_catches_up`: the slave comes to what its master had come to.
-/
import FtThesis.Elements.Socket
import FtThesis.Journey.Records

namespace FtThesis

open ClickSocket Memory PacketLoggerServer Socket Transition

/-! ### The slave -/

/-- The elements of a slave behind its `Socket` (`mb7.click`). -/
def Middlebox.slaveElements (box : Middlebox) (master slave : MbId) : Pipeline :=
  .configure ⟨⟨master, false, box.vlanLevelOffset, true⟩, ⟨slave, false, true⟩,
    ⟨master, false, box.vlanLevelOffset, true⟩, ⟨false, false, true⟩, ⟨slave, false, true⟩⟩

/-- A slave, with the packets as its first element has prepared them, and the determinant logger
of the slaves. -/
structure Slave where
  prepared : List Packet
  slaveDetLogger : DetLoggerServer

/-- A packet that the `Socket` pushes. -/
def pushedPacket (frame : List UInt8) : Packet := ⟨frame, none, 0, none, 0, none⟩

/-- What the first element makes of a frame that the `Socket` pushes. -/
def Middlebox.slavePrepares (box : Middlebox) (master slave : MbId)
    (answer : MbId → PacketId → PALSManager) (frame : List UInt8) : Packet :=
  (box.slaveElements master slave).pp.smaction answer (pushedPacket frame)

/-- What the elements send to the determinant logger of the slaves for the frame. -/
def Middlebox.slaveStores (box : Middlebox) (master slave : MbId)
    (answer : MbId → PacketId → PALSManager) (frame : List UInt8) : List PALSManager :=
  let elements := box.slaveElements master slave
  let (q, stored) := elements.dpr.smaction (box.slavePrepares master slave answer frame)
  let (q, _) := elements.ivn.smaction (elements.pp1.smaction answer (box.work q))
  let (_, stored₁) := elements.dpr1.smaction q
  [stored, stored₁].filterMap fun sent =>
    sent.bind fun r => if r.1 = LoggerHost.slaveDetLogger then some r.2 else none

/-- A frame that the `Socket` pushes passes the elements. -/
def Slave.receive (box : Middlebox) (master slave : MbId) (answer : MbId → PacketId → PALSManager)
    (s : Slave) (frame : List UInt8) : Slave where
  prepared := s.prepared ++ [box.slavePrepares master slave answer frame]
  slaveDetLogger := (box.slaveStores master slave answer frame).foldl
    DetLoggerServer.processStoreRequest s.slaveDetLogger

/-- What a client makes of the answer to `getPals`, with the contents of the buffers before.  If
the request fails the new manager is left as it is. -/
def DetLoggerServer.answerPals (u : DetLoggerServer) (retVal msg : Mem) (mbId : MbId)
    (packId : PacketId) : PALSManager :=
  ((u.clientGetPals mbId packId retVal msg).getD none).getD (.new 0 0)

/-! ### One frame -/

section

variable {key : ℕ × ℕ} {n : ℕ} {frame : List UInt8}

/-- The first byte of a frame is in front of its tags. -/
lemma CarriesTags.overwritten (h : CarriesTags key n 1 frame) :
    CarriesTags key n 1 (0 :: frame.tail) := by
  obtain ⟨pre, rest, hpre, rfl⟩ := h
  cases pre with
  | nil => cases hpre
  | cons b pre => exact ⟨0 :: pre, rest, hpre, rfl⟩

lemma CarriesTags.length_le (h : CarriesTags key n 1 frame) : 28 ≤ frame.length := by
  obtain ⟨pre, rest, hpre, rfl⟩ := h
  rw [length_tagged]
  omega

section

variable {box : Middlebox} (hbox : box.vlanLevelOffset = 1) (master slave : MbId)
  (answer : MbId → PacketId → PALSManager) (hkey : IsKey key) (hn : 1 ≤ n ∧ n ≤ 30)
  (h : CarriesTags key n 1 frame)

include hbox hkey hn h

/-- A slave reads the id of the frame. -/
lemma packIdAnno_slavePrepares :
    (box.slavePrepares master slave answer frame).packIdAnno = idOf key n :=
  CarriesTags.packIdAnno (p := pushedPacket frame) h hkey ⟨hn.1, by omega⟩
    (e := (box.slaveElements master slave).pp.toPreparePacket) hbox le_rfl _

/-- It asks for the determinants with this id. -/
lemma palsManagerAnno_slavePrepares :
    (box.slavePrepares master slave answer frame).palsManagerAnno
      = some (answer master (idOf key n)) := by
  rw [← packIdAnno_slavePrepares hbox master slave answer hkey hn h]
  rfl

/-- It stores the id and the next one. -/
lemma slaveStores_eq : box.slaveStores master slave answer frame
    = [.new slave (idOf key n), .new slave (idOf key (n + 1))] := by
  set elements := box.slaveElements master slave with helements
  set p := box.slavePrepares master slave answer frame with hp
  set q := (elements.dpr.smaction p).1 with hq
  set q₁ := (elements.ivn.smaction (elements.pp1.smaction answer (box.work q))).1 with hq₁
  have hid : p.packIdAnno = idOf key n :=
    packIdAnno_slavePrepares hbox master slave answer hkey hn h
  have hid₁ : q₁.packIdAnno = idOf key (n + 1) := by
    have hwork : CarriesTags key n box.vlanLevelOffset (box.work q).data :=
      CarriesTags.work (hbox.symm ▸ h)
    rw [idOf_succ hn.1, ← hwork.packIdAnno hkey ⟨hn.1, by omega⟩
      (e := elements.pp1.toPreparePacket) rfl box.offset_le
      (ConnectedPreparePacket.getPals ⟨.detLogger, true⟩ answer)]
    rfl
  rw [← hid, ← hid₁]
  rfl

end

end

/-! ### The determinants and the ids -/

namespace Network

variable {boxes : MbId → Middlebox} {s : Network} {mb : MbId}

/-- A slave gets the determinants that its master has stored. -/
lemma answerPals_eq (hr : Records s) {id : PacketId} (hid : id ∈ s.detLogger.processed mb)
    (retVal msg : Mem) : s.detLogger.answerPals retVal msg mb id = masterRecord mb id := by
  have hdata := hr.data mb id
  rw [if_pos hid] at hdata
  have hfits : Fits [masterRecord mb id] := ⟨Nat.le_of_ble_eq_true rfl, Nat.zero_le _⟩
  rw [DetLoggerServer.answerPals, DetLoggerServer.clientGetPals_eq hdata,
    convertPacketDataToPM_recordOf hfits]
  rfl

/-- Of the two ids of each visit the first one is the first one of its packet. -/
lemma firstVersions_visits (hs : Inv boxes s) {vs : List Visit} (hvs : ∀ v ∈ vs, s.Visited mb v)
    (hnodup : (vs.map Visit.key).Nodup) (bases : List PacketBase)
    (hnew : ∀ v ∈ vs, base (firstId v.key) ∉ bases) (rest : List PacketId) :
    DetLoggerServer.firstVersions bases (vs.flatMap Visit.ids ++ rest) = vs.map Visit.id ++
      DetLoggerServer.firstVersions ((vs.map fun v => base (firstId v.key)).reverse ++ bases)
        rest := by
  induction vs generalizing bases with
  | nil => rfl
  | cons v vs ih =>
      obtain ⟨hv, hvs⟩ := List.forall_mem_cons.mp hvs
      obtain ⟨hnewv, hnew⟩ := List.forall_mem_cons.mp hnew
      rw [List.map_cons, List.nodup_cons] at hnodup
      have hids : (v :: vs).flatMap Visit.ids ++ rest
          = v.id :: idOf v.key (v.versions + 1) :: (vs.flatMap Visit.ids ++ rest) := rfl
      have hbase : base v.id = base (firstId v.key) := hv.base_eq hs List.mem_cons_self
      have hbase₁ : base (idOf v.key (v.versions + 1)) = base (firstId v.key) :=
        hv.base_eq hs (List.mem_cons_of_mem _ List.mem_cons_self)
      have hothers : ∀ v' ∈ vs, base (firstId v'.key) ∉ base (firstId v.key) :: bases := by
        intro v' hv' hmem
        rcases List.mem_cons.mp hmem with heq | hmem
        · have hkey := firstId_inj ((hvs v' hv').isKey hs) (hv.isKey hs) heq
          exact hnodup.1 (hkey ▸ List.mem_map_of_mem hv')
        · exact hnew v' hv' hmem
      rw [hids, DetLoggerServer.firstVersions, hbase, if_neg hnewv, DetLoggerServer.firstVersions,
        hbase₁, if_pos List.mem_cons_self, ih hvs hnodup.2 _ hothers]
      simp

/-- The list of a middlebox has the ids of the last visits, from the given one on: those of the
others were removed. -/
def ListsFrom (s : Network) (mb : MbId) (k : ℕ) : Prop :=
  s.cleared mb = ((s.visits mb).take k).flatMap Visit.ids

/-- What the list is then. -/
lemma ListsFrom.listed {k : ℕ} (h : s.ListsFrom mb k) (hr : Records s) :
    s.Free mb ∧ s.detLogger.processed mb = ((s.visits mb).drop k).flatMap Visit.ids ∨
      ∃ vs v, (s.visits mb).drop k = vs ++ [v] ∧ s.Working mb v ∧
        s.detLogger.processed mb = vs.flatMap Visit.ids ++ [v.id] := by
  rcases hr.listed mb with ⟨hfree, hlist⟩ | ⟨vs, v, hv, hw, hlist⟩
  · refine .inl ⟨hfree, ?_⟩
    rw [recorded, h, ← List.take_append_drop k (s.visits mb), List.flatMap_append,
      List.take_append_drop] at hlist
    exact List.append_cancel_left hlist
  · have hk : k ≤ vs.length := by
      by_contra hk
      rw [recorded, h, hv, List.take_of_length_le (by simp; omega), List.flatMap_append,
        List.append_assoc] at hlist
      have := congrArg List.length (List.append_cancel_left hlist)
      simp [Visit.ids] at this
    refine .inr ⟨vs.drop k, v, by rw [hv, List.drop_append_of_le_length hk], hw, ?_⟩
    rw [recorded, h, hv, List.take_append_of_le_length hk] at hlist
    refine List.append_cancel_left (hlist.trans ?_)
    rw [← List.append_assoc, ← List.flatMap_append, List.take_append_drop]

/-- The ids that are listed as the first ones of a middlebox are those with which the packets came
to it. -/
lemma firstVersions_processed (hs : Inv boxes s) (hr : Records s) {k : ℕ}
    (hcut : s.ListsFrom mb k) :
    DetLoggerServer.firstVersions [] (s.detLogger.processed mb)
      = ((s.visits mb).drop k).map Visit.id := by
  have hvisited := fun v hv => hr.visited mb v (List.mem_of_mem_drop (i := k) hv)
  have hnodup : (((s.visits mb).drop k).map Visit.key).Nodup :=
    (hr.nodup mb).sublist ((List.drop_sublist k _).map _)
  rcases hcut.listed hr with ⟨-, hlist⟩ | ⟨vs, v, hv, -, hlist⟩
  · have h := firstVersions_visits hs hvisited hnodup [] (fun _ _ => List.not_mem_nil) []
    rwa [List.append_nil, DetLoggerServer.firstVersions, List.append_nil, ← hlist] at h
  · rw [hv] at hvisited hnodup
    have hlast := hvisited v (List.mem_append_right _ List.mem_cons_self)
    have hfront := fun v' hv' => hvisited v' (List.mem_append_left _ hv')
    rw [List.map_append, List.nodup_append] at hnodup
    have hnew : base v.id ∉ (vs.map fun v => base (firstId v.key)).reverse ++ [] := by
      rw [List.append_nil, List.mem_reverse, List.mem_map]
      rintro ⟨v', hv', heq⟩
      have hbase : base v.id = base (firstId v.key) := hlast.base_eq hs List.mem_cons_self
      rw [hbase] at heq
      have hkey := firstId_inj ((hfront v' hv').isKey hs) (hlast.isKey hs) heq
      exact hnodup.2.2 _ (List.mem_map_of_mem hv') _ List.mem_cons_self hkey
    rw [hlist, firstVersions_visits hs hfront hnodup.1 [] (fun _ _ => List.not_mem_nil),
      DetLoggerServer.firstVersions, if_neg hnew, DetLoggerServer.firstVersions, hv,
      List.map_append]
    rfl

/-- A request for the first ids of a middlebox is answered with these. -/
lemma getProcessed_eq (hs : Inv boxes s) (hr : Records s) {k : ℕ} (hcut : s.ListsFrom mb k)
    (hroom : 8 * (s.detLogger.processed mb).length ≤ maxRetValLength) :
    s.detLogger.processGetProcessedPacketsRequest mb false
      = some (((s.visits mb).drop k).map Visit.id) := by
  have hlt : (s.detLogger.processed mb).length < 2 ^ 32 := by
    rw [maxRetValLength] at hroom
    omega
  have hlist : s.detLogger.HasList mb (s.detLogger.processed mb) :=
    ⟨rfl, by rw [hr.index, UInt32.toNat_ofNat_of_lt' hlt]⟩
  rw [hlist.getProcessed_first hroom, firstVersions_processed hs hr hcut]

/-! ### The packets -/

/-- The packet logger has a packet that begins with the frame that came to the middlebox. -/
lemma storedPacket_of_visited (hs : Inv boxes s) {v : Visit} (hv : s.Visited mb v)
    (hkept : NoneDeleted s.requests (base (firstId v.key))) (srt : VersionSort) :
    ∃ q, storedPacket srt s.packetLogger v.id = some q ∧
      q.stored.take v.frame.length = v.frame := by
  obtain ⟨j, hj, -, -, hframe⟩ := hv.journey
  have hversion := hasVersion hs hj hkept srt hframe
  rw [Nat.sub_add_cancel hv.versions.1] at hversion
  obtain ⟨reply, hget, hread⟩ := hversion fun _ => 0
  set len := (((s.frames v.key).take v.versions).map List.length).foldl max 0 with hlen
  have hmem : v.frame.length ∈ ((s.frames v.key).take v.versions).map List.length := by
    refine List.mem_map_of_mem (List.mem_iff_getElem?.mpr ⟨v.versions - 1, ?_⟩)
    rw [List.getElem?_take_of_lt (Nat.sub_lt hv.versions.1 Nat.one_pos), frames_of_some hj, hframe]
  have hle : v.frame.length ≤ len := by
    rw [hlen, List.foldl_max]
    exact (List.le_max?_getD_of_mem hmem).trans (le_max_right _ _)
  have hpos : 0 < len := by
    have := hv.carries.length_le
    omega
  have hfound : (getPacket srt s.packetLogger v.id fun _ => 0).1 = true ∧
      0 < (getPacket srt s.packetLogger v.id fun _ => 0).2.2 := by
    rw [Visit.id, hget]
    exact ⟨rfl, hpos⟩
  refine ⟨_, dif_pos hfound, ?_⟩
  change (read (getPacket srt s.packetLogger v.id fun _ => 0).2.1 0
    (getPacket srt s.packetLogger v.id fun _ => 0).2.2).take v.frame.length = v.frame
  obtain ⟨k, hk⟩ := Nat.exists_eq_add_of_le hle
  rw [Visit.id, hget, hk, read_add, List.take_left' (length_read ..), hread]

/-- The frames that are pushed at the slave, by the visits of its master. -/
def replayedFrame (s : Network) (srt : VersionSort) (v : Visit) : List UInt8 :=
  ((storedPacket srt s.packetLogger v.id).map ReplayedPacket.sent).getD []

/-- A pushed frame is the one that came to the middlebox, with its first byte overwritten, and has
the tags of its version. -/
lemma replayedFrame_spec (hs : Inv boxes s) {v : Visit} (hv : s.Visited mb v)
    (hkept : NoneDeleted s.requests (base (firstId v.key))) (srt : VersionSort) :
    (s.replayedFrame srt v).take v.frame.length = 0 :: v.frame.tail ∧
      CarriesTags v.key v.versions 1 (s.replayedFrame srt v) := by
  obtain ⟨q, hq, hstored⟩ := storedPacket_of_visited hs hv hkept srt
  have hlen := hv.carries.length_le
  obtain ⟨k, hk⟩ := Nat.exists_eq_add_of_le' (Nat.one_le_of_lt hlen)
  have hframe : s.replayedFrame srt v = 0 :: q.stored.tail := by
    rw [replayedFrame, hq]
    rfl
  rw [hframe]
  constructor
  · have htail : v.frame.tail = q.stored.tail.take k := by
      rw [← hstored, hk]
      cases q.stored <;> simp
    rw [hk, List.take_succ_cons, htail]
  · refine (hv.carries.congr ?_).overwritten
    rw [← hstored, List.take_take, min_eq_left (by omega)]

/-- All of them are pushed. -/
lemma map_sent_storedPackets (hs : Inv boxes s) {vs : List Visit}
    (hvs : ∀ v ∈ vs, s.Visited mb v)
    (hkept : ∀ v ∈ vs, NoneDeleted s.requests (base (firstId v.key))) (srt : VersionSort) :
    (storedPackets srt s.packetLogger (vs.map Visit.id)).map ReplayedPacket.sent
      = vs.map (s.replayedFrame srt) := by
  induction vs with
  | nil => rfl
  | cons v vs ih =>
      obtain ⟨hv, hvs⟩ := List.forall_mem_cons.mp hvs
      obtain ⟨hkeptv, hkept⟩ := List.forall_mem_cons.mp hkept
      obtain ⟨q, hq, -⟩ := storedPacket_of_visited hs hv hkeptv srt
      have hcons : storedPackets srt s.packetLogger ((v :: vs).map Visit.id)
          = q :: storedPackets srt s.packetLogger (vs.map Visit.id) :=
        List.filterMap_cons_some hq
      rw [hcons, List.map_cons, List.map_cons, ih hvs hkept, replayedFrame, hq]
      rfl

/-! ### All frames -/

/-- The slave works on the packet with the id with which it came to the master, with the
determinants that the master has stored for it, and on the frame that came to the master but for
its first byte. -/
structure Reprocessed (mb : MbId) (v : Visit) (p : Packet) : Prop where
  id : p.packIdAnno = v.id
  pals : p.palsManagerAnno = some (masterRecord mb v.id)
  frame : p.data.take v.frame.length = 0 :: v.frame.tail

/-- The replayed frames, one after the other. -/
lemma receive_replayed (hs : Inv boxes s) (hr : Records s) {vs : List Visit}
    (hvs : ∀ v ∈ vs, s.Visited mb v ∧ v.id ∈ s.detLogger.processed mb ∧
      NoneDeleted s.requests (base (firstId v.key))) (srt : VersionSort) {box : Middlebox}
    (hbox : box.vlanLevelOffset = 1) (slave : MbId) (retVal msg : Mem) (r : Slave) :
    ∃ ps, List.Forall₂ (Reprocessed mb) vs ps ∧
      let after := (vs.map (s.replayedFrame srt)).foldl
        (Slave.receive box mb slave (s.detLogger.answerPals retVal msg)) r
      after.prepared = r.prepared ++ ps ∧
        after.slaveDetLogger.processed slave
          = r.slaveDetLogger.processed slave ++ vs.flatMap Visit.ids := by
  induction vs generalizing r with
  | nil => exact ⟨[], .nil, (List.append_nil _).symm, (List.append_nil _).symm⟩
  | cons v vs ih =>
      obtain ⟨⟨hv, hlisted, hkept⟩, hvs⟩ := List.forall_mem_cons.mp hvs
      obtain ⟨hframe, hcarries⟩ := replayedFrame_spec hs hv hkept srt
      have hn := hv.versions
      set answer := s.detLogger.answerPals retVal msg with hanswer
      obtain ⟨ps, hps, hprepared, hprocessed⟩ :=
        ih hvs (r.receive box mb slave answer (s.replayedFrame srt v))
      have hkey := hv.isKey hs
      have hpals := palsManagerAnno_slavePrepares hbox mb slave answer hkey
        ⟨hn.1, by omega⟩ hcarries
      have hreprocessed : Reprocessed mb v
          (box.slavePrepares mb slave answer (s.replayedFrame srt v)) :=
        ⟨packIdAnno_slavePrepares hbox mb slave answer hkey ⟨hn.1, by omega⟩ hcarries,
          hpals.trans (congrArg some (answerPals_eq hr hlisted retVal msg)), hframe⟩
      refine ⟨_, .cons hreprocessed hps, ?_, ?_⟩
      · rw [List.map_cons, List.foldl_cons, hprepared, Slave.receive, List.append_assoc]
        rfl
      · have hstores := slaveStores_eq hbox mb slave answer hkey ⟨hn.1, by omega⟩ hcarries
        rw [List.map_cons, List.foldl_cons, hprocessed, Slave.receive, hstores]
        simp [DetLoggerServer.processed_processStoreRequest, PALSManager.new, Visit.ids]

/-- The list of a middlebox is the ids of its last visits, but perhaps for the last one. -/
lemma processed_begins (hr : Records s) {k : ℕ} (hcut : s.ListsFrom mb k) :
    s.detLogger.processed mb <+: ((s.visits mb).drop k).flatMap Visit.ids ∧
      (((s.visits mb).drop k).flatMap Visit.ids).length
        ≤ (s.detLogger.processed mb).length + 1 ∧
      (s.Free mb → s.detLogger.processed mb = ((s.visits mb).drop k).flatMap Visit.ids) := by
  rcases hcut.listed hr with ⟨-, hlist⟩ | ⟨vs, v, hv, ⟨j, hj, hplace⟩, hlist⟩
  · rw [hlist]
    exact ⟨List.prefix_rfl, Nat.le_succ _, fun _ => rfl⟩
  · have hall : ((s.visits mb).drop k).flatMap Visit.ids
        = s.detLogger.processed mb ++ [idOf v.key (v.versions + 1)] := by
      rw [hlist, hv, List.flatMap_append, List.append_assoc]
      rfl
    rw [hall]
    refine ⟨List.prefix_append .., by simp, fun hfree => ?_⟩
    obtain ⟨hrecorded, hlogged⟩ := hfree v.key j hj
    rcases hplace with ⟨h, -⟩ | ⟨h, -⟩
    · exact absurd h hrecorded
    · exact absurd h hlogged

/-- The id with which a packet came to a middlebox is listed there, unless it was removed. -/
lemma id_mem_processed (hr : Records s) {k : ℕ} (hcut : s.ListsFrom mb k) {v : Visit}
    (hv : v ∈ (s.visits mb).drop k) : v.id ∈ s.detLogger.processed mb := by
  rcases hcut.listed hr with ⟨-, hlist⟩ | ⟨vs, v', hvisits, -, hlist⟩
  · rw [hlist]
    exact List.mem_flatMap.mpr ⟨v, hv, List.mem_cons_self⟩
  · rw [hvisits] at hv
    rw [hlist]
    rcases List.mem_append.mp hv with hv | hv
    · exact List.mem_append_left _ (List.mem_flatMap.mpr ⟨v, hv, List.mem_cons_self⟩)
    · obtain rfl := List.mem_singleton.mp hv
      exact List.mem_append_right _ List.mem_cons_self

/-- **A slave catches up with its master.**  After every run of the network of which each step is
permitted (`Permits`), for every middlebox from whose list the ids of some first packets were
removed, and of whose other packets nothing was deleted, if the list fits into an answer, whether
or not the middlebox was interrupted within a packet: the determinant logger lists as its first
ids those with which these other packets came to it.  When the packet logger sends the
packets with these ids to a slave of level offset `1` (they have their TSA tags) and they come in
any chunks, but with no pause within a packet, then the slave works on the same packets in the same
order, each with its id, its determinants and its frame but for the first byte; and the slave comes
to the list of its master, with the second id of the packet in which this was interrupted. -/
theorem slave_catches_up {as : List Action} (h : Run (Steps boxes) new as s) {mb : MbId} {k : ℕ}
    (hcut : s.ListsFrom mb k)
    (hkept : ∀ v ∈ (s.visits mb).drop k, NoneDeleted s.requests (base (firstId v.key)))
    (hroom : 8 * (s.detLogger.processed mb).length ≤ maxRetValLength) (srt : VersionSort)
    {ids : List PacketId}
    (hids : s.detLogger.processGetProcessedPacketsRequest mb false = some ids)
    {ev : List Event} (hev : Delivers ev)
    (hstream : stream ev
      = (processReplayRequest srt s.packetLogger true ids).2.flatMap SentPacket.message)
    (hwaits : ∀ p ∈ waits ev, p ∈ packetStarts (storedPackets srt s.packetLogger ids))
    {box : Middlebox} (hbox : box.vlanLevelOffset = 1) (slave : MbId) (u : DetLoggerServer)
    (garbage : ℕ → Mem) (errnoAgain : ℕ → Bool) (retVal msg : Mem) :
    let after := (callbacks garbage errnoAgain ev).foldl
      (Slave.receive box mb slave (s.detLogger.answerPals retVal msg)) ⟨[], u⟩
    ids = ((s.visits mb).drop k).map Visit.id ∧
      List.Forall₂ (Reprocessed mb) ((s.visits mb).drop k) after.prepared ∧
      ∃ list, after.slaveDetLogger.processed slave = u.processed slave ++ list ∧
        s.detLogger.processed mb <+: list ∧
        list.length ≤ (s.detLogger.processed mb).length + 1 ∧
        (s.Free mb → list = s.detLogger.processed mb) := by
  obtain ⟨hs, hr⟩ := records_of_run h
  obtain rfl : ((s.visits mb).drop k).map Visit.id = ids :=
    Option.some.inj ((getProcessed_eq hs hr hcut hroom).symm.trans hids)
  have hvisited := fun v hv => hr.visited mb v (List.mem_of_mem_drop (i := k) hv)
  have hvs : ∀ v ∈ (s.visits mb).drop k, s.Visited mb v ∧ v.id ∈ s.detLogger.processed mb ∧
      NoneDeleted s.requests (base (firstId v.key)) :=
    fun v hv => ⟨hvisited v hv, id_mem_processed hr hcut hv, hkept v hv⟩
  have hpushed := pushes_sent _ hev (hstream.trans (stream_processReplayRequest ..)) hwaits garbage
    errnoAgain
  rw [map_sent_storedPackets hs hvisited hkept srt] at hpushed
  obtain ⟨ps, hps, hprepared, hprocessed⟩ :=
    receive_replayed hs hr hvs srt hbox slave retVal msg ⟨[], u⟩
  obtain ⟨hbegins, hlength, hfree⟩ := processed_begins hr hcut
  intro after
  have hafter : after = (((s.visits mb).drop k).map (s.replayedFrame srt)).foldl
      (Slave.receive box mb slave (s.detLogger.answerPals retVal msg)) ⟨[], u⟩ := by
    rw [← hpushed]
  refine ⟨rfl, ?_, _, ?_, hbegins, hlength, fun h => (hfree h).symm⟩
  · rw [hafter, hprepared]
    exact hps
  · rw [hafter, hprocessed]

/-- The slave `7` of the middlebox `6`, which fails within its second packet. -/
theorem slave_catches_up_mb7 : ∃ s ps, Run (Steps withTsaTag) new
      ([.enter 1 shortPacket, .enter 2 shortPacket, .arrive (1, 0) 6] ++
        [.record (1, 0), .log (1, 0), .forward (1, 0), .arrive (2, 0) 6] ++ [.record (2, 0)]) s ∧
    (s.detLogger.processed 6).length = 3 ∧
    List.Forall₂ (Reprocessed 6) (s.visits 6) ps ∧ ps.length = 2 := by
  obtain ⟨s, hrecord, hlength, hvisits, hcut⟩ : ∃ s,
      Run (Steps withTsaTag) secondArrived [.record (2, 0)] s ∧
      (s.detLogger.processed 6).length = 3 ∧ (s.visits 6).length = 2 ∧ s.ListsFrom 6 0 :=
    ⟨_, .single ⟨trivial, _, 6, rfl, rfl, rfl⟩, rfl, rfl, rfl⟩
  have hrun := (run_arrived.append run_secondArrived).append hrecord
  have hkept : ∀ v ∈ (s.visits 6).drop 0, NoneDeleted s.requests (base (firstId v.key)) :=
    fun v _ => noneDeleted_of_run hrun (by simp) _
  have hroom : 8 * (s.detLogger.processed 6).length ≤ maxRetValLength := by
    rw [hlength, maxRetValLength]
    decide
  obtain ⟨hs, hr⟩ := records_of_run hrun
  have hids := getProcessed_eq hs hr hcut hroom
  let ev := pushBack ((processReplayRequest .stable s.packetLogger true
    (((s.visits 6).drop 0).map Visit.id)).2.flatMap SentPacket.message) []
  have hev : Delivers ev := delivers_pushBack (by simp [Delivers])
  have hbox : (Middlebox.plain 1 le_rfl).vlanLevelOffset = 1 := rfl
  obtain ⟨-, hps, -⟩ := slave_catches_up hrun hcut hkept hroom .stable hids hev
    (by simp [ev, stream]) (by simp [ev, waits]) hbox 7 .new (fun _ _ => 0) (fun _ => true)
    (fun _ => 0) fun _ => 0
  exact ⟨s, _, hrun, hlength, hps, hps.length_eq.symm.trans hvisits⟩

end Network

end FtThesis
