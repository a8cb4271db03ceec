/-
What the masters have stored of the packets that came to them.

A master stores two ids for each packet, that of the version that came to it and that of the next
one.  If it fails in the middle of a packet the second one is missing.

* `Continues`: what no step takes back; `continues_step`;
* `Working`, `Free`, `Listed`: the packet that a middlebox works on, and its list;
* `Visited`: what is known of a packet that came to a middlebox;
* `Records`: the lists and the records of the determinant logger; `records_step`: every step keeps
  this.
-/
import FtThesis.DetLogger.Determinants
import FtThesis.Journey.Versions

namespace FtThesis

open Memory PacketLoggerServer Transition

namespace Network

variable {boxes : MbId → Middlebox} {s t : Network} {key : ℕ × ℕ} {j j' : Journey} {mb : MbId}
  {v : Visit}

/-! ### What no step takes back -/

/-- Each packet has what was logged of it and the middleboxes that it came to, and comes to new
ones only. -/
def Continues (s t : Network) : Prop :=
  ∀ key j, s.journeys key = some j → ∃ j', t.journeys key = some j' ∧ j.way ⊆ j'.way ∧
    j.frames <+: j'.frames ∧ ∀ mb, j'.place = .arrived mb → mb ∉ j.way ∨ j.place = .arrived mb

/-- A packet changes in this way. -/
lemma continues_setJourney (hj : s.journeys key = some j) (hway : j.way ⊆ j'.way)
    (hframes : j.frames <+: j'.frames)
    (hplace : ∀ mb, j'.place = .arrived mb → mb ∉ j.way ∨ j.place = .arrived mb) :
    s.Continues (s.setJourney key j') := by
  intro k i hi
  rcases s.cases_setJourney key j' k with ⟨rfl, heq⟩ | ⟨-, heq⟩
  · obtain rfl := Option.some.inj (hj.symm.trans hi)
    exact ⟨j', heq, hway, hframes, hplace⟩
  · exact ⟨i, heq.trans hi, List.Subset.refl _, List.prefix_rfl, fun _ => .inr⟩

lemma Continues.of_journeys (h : t.journeys = s.journeys) : s.Continues t := fun _ j hj =>
  ⟨j, h ▸ hj, List.Subset.refl _, List.prefix_rfl, fun _ => .inr⟩

/-- Every step does. -/
lemma continues_step {a : Action} (hs : Inv boxes s) (hp : s.Permits boxes a)
    (h : s.step boxes a t) : s.Continues t := by
  cases a with
  | enter p packet =>
      obtain rfl := h
      obtain ⟨hproducer, hmade, hlen, hsize⟩ := hp
      obtain ⟨q, hq, -, heq⟩ := enter_eq (n := s.made p) hproducer hlen hsize
      rw [Network.enter, hs.producers p, heq]
      intro k i hi
      have hne : k ≠ (p, s.made p) := by
        rintro rfl
        exact (hs.keys _ i hi).2.false
      exact ⟨i, (Function.update_of_ne hne ..).trans hi, List.Subset.refl _, List.prefix_rfl,
        fun _ => .inr⟩
  | arrive key mb =>
      obtain ⟨j, hj, -, -, rfl⟩ := h
      refine continues_setJourney hj (List.subset_append_left ..) List.prefix_rfl fun mb' hmb' => ?_
      obtain rfl := Place.arrived.inj hmb'
      exact .inl (hp j hj).2.1
  | record key =>
      obtain ⟨j, mb, hj, hplace, rfl⟩ := h
      obtain ⟨q, -, heq⟩ := record_spec hs hj hplace
      rw [heq]
      exact continues_setJourney hj (List.Subset.refl _) List.prefix_rfl fun _ h => by cases h
  | log key =>
      obtain ⟨j, mb, hj, hplace, rfl⟩ := h
      obtain ⟨q, hq, -, -, -, -, -, heq⟩ := log_spec hs hj hplace
      rw [heq]
      exact continues_setJourney hj (List.Subset.refl _) (List.prefix_append ..)
        fun _ h => by cases h
  | forward key =>
      obtain ⟨j, mb, hj, hplace, rfl⟩ := h
      obtain ⟨q, -, heq⟩ := forward_spec hs hj hplace
      rw [heq]
      exact continues_setJourney hj (List.Subset.refl _) List.prefix_rfl fun _ h => by cases h
  | deletePackets ids =>
      obtain rfl := h
      exact .of_journeys rfl
  | deleteFirstPackets mb n =>
      obtain rfl := h
      exact .of_journeys rfl

/-! ### The visits -/

/-- A packet came to a middlebox and was recorded there, as a frame with the tags of its last
version then. -/
structure Visited (s : Network) (mb : MbId) (v : Visit) : Prop where
  journey : ∃ j, s.journeys v.key = some j ∧ mb ∈ j.way ∧ j.place ≠ .arrived mb ∧
    j.frames[v.versions - 1]? = some v.frame
  versions : 1 ≤ v.versions ∧ v.versions ≤ 29
  carries : CarriesTags v.key v.versions 1 v.frame

lemma Visited.mono (hv : s.Visited mb v) (h : s.Continues t) : t.Visited mb v where
  journey := by
    obtain ⟨j, hj, hway, hplace, hframe⟩ := hv.journey
    obtain ⟨j', hj', hway', hframes, harrived⟩ := h v.key j hj
    refine ⟨j', hj', hway' hway, fun h => ?_, ?_⟩
    · rcases harrived mb h with hnew | hold
      · exact hnew hway
      · exact hplace hold
    · obtain ⟨rest, hrest⟩ := hframes
      rw [← hrest, List.getElem?_append_left (List.getElem?_eq_some_iff.mp hframe).1]
      exact hframe
  versions := hv.versions
  carries := hv.carries

lemma Visited.isKey (hs : Inv boxes s) (hv : s.Visited mb v) : IsKey v.key := by
  obtain ⟨j, hj, -⟩ := hv.journey
  exact hs.isKey hj

/-- The ids of a visit are those of its packet. -/
lemma Visited.base_eq (hs : Inv boxes s) (hv : s.Visited mb v) {id : PacketId} (hid : id ∈ v.ids) :
    base id = base (firstId v.key) := by
  have hn := hv.versions
  have hkey := hv.isKey hs
  rcases List.mem_cons.mp hid with rfl | hid
  · exact base_idOf hkey (by omega)
  · obtain rfl := List.mem_singleton.mp hid
    exact base_idOf hkey (by omega)

/-- The ids of the visits of other packets are other ones. -/
lemma notMem_ids (hs : Inv boxes s) {vs : List Visit} (hvs : ∀ v ∈ vs, s.Visited mb v)
    (hkey : IsKey key) (hnew : key ∉ vs.map Visit.key) {n : ℕ} (hn : 1 ≤ n ∧ n ≤ 31) :
    idOf key n ∉ vs.flatMap Visit.ids := by
  intro hmem
  obtain ⟨v, hv, hid⟩ := List.mem_flatMap.mp hmem
  have hbase := (hvs v hv).base_eq hs hid
  rw [base_idOf hkey hn] at hbase
  have heq := firstId_inj hkey ((hvs v hv).isKey hs) hbase
  exact hnew (heq ▸ List.mem_map_of_mem hv)

/-! ### The lists -/

/-- The middlebox has recorded the packet and has not yet let it go. -/
def Working (s : Network) (mb : MbId) (v : Visit) : Prop :=
  ∃ j, s.journeys v.key = some j ∧ (j.place = .recorded mb ∧ j.frames.length = v.versions ∨
    j.place = .logged mb ∧ j.frames.length = v.versions + 1)

/-- There is no such packet. -/
def Free (s : Network) (mb : MbId) : Prop :=
  ∀ key j, s.journeys key = some j → j.place ≠ .recorded mb ∧ j.place ≠ .logged mb

/-- All ids that a middlebox has stored: those that were removed from its list, and those that are
in it. -/
def recorded (s : Network) (mb : MbId) : List PacketId := s.cleared mb ++ s.detLogger.processed mb

/-- These are the two ids of each visit, or the first one only of a packet that the middlebox works
on. -/
def Listed (s : Network) (mb : MbId) : Prop :=
  s.Free mb ∧ s.recorded mb = (s.visits mb).flatMap Visit.ids ∨
    ∃ vs v, s.visits mb = vs ++ [v] ∧ s.Working mb v ∧
      s.recorded mb = vs.flatMap Visit.ids ++ [v.id]

/-- The determinant logger of the masters has the lists and the records of the visits, but for what
was removed. -/
structure Records (s : Network) : Prop where
  listed : ∀ mb, s.Listed mb
  nodup : ∀ mb, ((s.visits mb).map Visit.key).Nodup
  visited : ∀ mb, ∀ v ∈ s.visits mb, s.Visited mb v
  index : ∀ mb, s.detLogger.processedIndex mb = UInt32.ofNat (s.detLogger.processed mb).length
  data : ∀ mb id, s.detLogger.getPacketData mb id =
    if id ∈ s.detLogger.processed mb then some (recordOf [masterRecord mb id]) else none

lemma records_new : Records new where
  listed _ := .inl ⟨fun _ _ h => by (cases h), rfl⟩
  nodup _ := List.nodup_nil
  visited _ _ h := absurd h List.not_mem_nil
  index _ := rfl
  data _ _ := rfl

/-- The packets that a middlebox works on are the same. -/
def SameInside (s t : Network) (mb : MbId) : Prop :=
  ∀ k i, (i.place = .recorded mb ∨ i.place = .logged mb) →
    (t.journeys k = some i ↔ s.journeys k = some i)

/-- A packet changes outside of the middlebox. -/
lemma sameInside_setJourney
    (hold : ∀ j, s.journeys key = some j → ¬ (j.place = .recorded mb ∨ j.place = .logged mb))
    (hnew : ¬ (j'.place = .recorded mb ∨ j'.place = .logged mb)) :
    s.SameInside (s.setJourney key j') mb := by
  intro k i hi
  rcases s.cases_setJourney key j' k with ⟨rfl, heq⟩ | ⟨-, heq⟩
  · rw [heq]
    refine ⟨fun h => ?_, fun h => absurd hi (hold i h)⟩
    obtain rfl := Option.some.inj h
    exact absurd hi hnew
  · rw [heq]

/-- A list stays right as long as its middlebox does nothing. -/
lemma Listed.of_same (h : s.Listed mb) (hrecorded : t.recorded mb = s.recorded mb)
    (hvisits : t.visits mb = s.visits mb) (hsame : s.SameInside t mb) : t.Listed mb := by
  rw [Listed, hrecorded, hvisits]
  rcases h with ⟨hfree, hlist⟩ | ⟨vs, v, hv, ⟨j, hj, hplace⟩, hlist⟩
  · refine .inl ⟨fun k i hi => ⟨fun h => ?_, fun h => ?_⟩, hlist⟩
    · exact (hfree k i ((hsame k i (.inl h)).mp hi)).1 h
    · exact (hfree k i ((hsame k i (.inr h)).mp hi)).2 h
  · have hinside := hplace.imp And.left And.left
    exact .inr ⟨vs, v, hv, ⟨j, (hsame v.key j hinside).mpr hj, hplace⟩, hlist⟩

/-- The determinant logger is not called. -/
lemma Records.of_continues (hr : Records s) (hcontinues : s.Continues t)
    (hdet : t.detLogger = s.detLogger) (hvisits : t.visits = s.visits)
    (hlisted : ∀ mb, t.Listed mb) : Records t where
  listed := hlisted
  nodup mb := hvisits ▸ hr.nodup mb
  visited mb v hv := (hr.visited mb v (hvisits ▸ hv)).mono hcontinues
  index mb := hdet ▸ hr.index mb
  data mb id := hdet ▸ hr.data mb id

/-- The ids of a middlebox are those of its visits, but perhaps for the last one. -/
lemma recorded_begins (hr : Records s) (mb : MbId) :
    s.recorded mb <+: (s.visits mb).flatMap Visit.ids := by
  rcases hr.listed mb with ⟨-, hlist⟩ | ⟨vs, v, hv, -, hlist⟩
  · rw [hlist]
  · rw [hlist, hv, List.flatMap_append]
    exact (List.prefix_append_right_inj _).mpr ⟨[idOf v.key (v.versions + 1)], rfl⟩

/-- No id is stored twice. -/
lemma nodup_recorded (hs : Inv boxes s) (hr : Records s) (mb : MbId) : (s.recorded mb).Nodup := by
  refine .sublist (recorded_begins hr mb).sublist (List.nodup_flatMap.mpr ⟨fun v hv => ?_, ?_⟩)
  · have hkey := (hr.visited mb v hv).isKey hs
    have hn := (hr.visited mb v hv).versions
    have hne : idOf v.key v.versions ≠ idOf v.key (v.versions + 1) := fun heq => by
      have hversion := congrArg version heq
      rw [version_idOf hkey (by omega), version_idOf hkey (by omega)] at hversion
      omega
    exact List.nodup_cons.mpr ⟨fun h => hne (List.mem_singleton.mp h), List.nodup_singleton _⟩
  · refine (List.pairwise_map.mp (hr.nodup mb)).imp_of_mem fun hv hv' hne id hid hid' => hne ?_
    have hvisited := hr.visited mb _ hv
    have hvisited' := hr.visited mb _ hv'
    exact firstId_inj (hvisited.isKey hs) (hvisited'.isKey hs)
      ((hvisited.base_eq hs hid).symm.trans (hvisited'.base_eq hs hid'))

/-- A master stores a new id. -/
lemma Records.stored (hr : Records s) {id : PacketId} (hnew : id ∉ s.recorded mb)
    (hdet : t.detLogger = s.detLogger.processStoreRequest (masterRecord mb id))
    (hcleared : t.cleared = s.cleared) :
    (∀ mb', t.recorded mb' = if mb' = mb then s.recorded mb' ++ [id] else s.recorded mb') ∧
      (∀ mb', t.detLogger.processedIndex mb' = .ofNat (t.detLogger.processed mb').length) ∧
      ∀ mb' id', t.detLogger.getPacketData mb' id' =
        if id' ∈ t.detLogger.processed mb' then some (recordOf [masterRecord mb' id'])
        else none := by
  have hother : id ∉ s.detLogger.processed mb := fun h => hnew (List.mem_append_right _ h)
  have hlist : ∀ mb', t.detLogger.processed mb' =
      if mb' = mb then s.detLogger.processed mb' ++ [id] else s.detLogger.processed mb' := by
    intro mb'
    rw [hdet, DetLoggerServer.processed_processStoreRequest, middleboxId_masterRecord,
      packetId_masterRecord]
  refine ⟨fun mb' => ?_, fun mb' => ?_, fun mb' id' => ?_⟩
  · rw [recorded, recorded, hcleared, hlist, apply_ite (s.cleared mb' ++ ·), List.append_assoc]
  · rw [hlist, hdet, DetLoggerServer.processedIndex_processStoreRequest, middleboxId_masterRecord,
      hr.index]
    split_ifs
    · rw [List.length_append, List.length_singleton, UInt32.ofNat_add]
      rfl
    · rfl
  · rw [hlist, hdet, DetLoggerServer.getPacketData_processStoreRequest, middleboxId_masterRecord,
      packetId_masterRecord, hr.data]
    by_cases hmb : mb' = mb
    · subst hmb
      by_cases hid : id' = id
      · subst hid
        rw [if_pos ⟨rfl, rfl⟩, if_pos rfl, if_neg hother,
          if_pos (List.mem_append_right _ List.mem_cons_self)]
        exact congrArg some (updatePacketData_recordOf [] _)
      · rw [if_neg fun h => hid h.2, if_pos rfl]
        simp [hid]
    · rw [if_neg fun h => hmb h.1, if_neg hmb]

/-! ### Steps -/

/-- A packet that a middlebox takes has not been there. -/
lemma new_of_arrived (hr : Records s) (hj : s.journeys key = some j)
    (hplace : j.place = .arrived mb) :
    key ∉ (s.visits mb).map Visit.key := by
  intro hmem
  obtain ⟨v, hv, rfl⟩ := List.mem_map.mp hmem
  obtain ⟨j', hj', -, hne, -⟩ := (hr.visited mb v hv).journey
  obtain rfl := Option.some.inj (hj.symm.trans hj')
  exact hne hplace

/-- A packet that is in a middlebox is the one that this works on. -/
lemma Working.key_eq (hs : Inv boxes s) (hj : s.journeys key = some j)
    (hplace : j.place.middlebox = some mb) (hw : s.Working mb v) : v.key = key := by
  obtain ⟨j', hj', h⟩ := hw
  refine hs.alone v.key key j' j mb hj' hj ?_ hplace
  rcases h with ⟨h, -⟩ | ⟨h, -⟩ <;> rw [h] <;> rfl

section

variable (hs : Inv boxes s) (hr : Records s) (hj : s.journeys key = some j)

include hs hr hj

/-- A middlebox that takes a packet works on no other one, and the id of the packet is new in its
list. -/
lemma new_of_record (hplace : j.place = .arrived mb) :
    s.recorded mb = (s.visits mb).flatMap Visit.ids ∧
      idOf key j.frames.length ∉ s.recorded mb := by
  have hright := hs.right key j hj
  obtain ⟨hle, -⟩ := tagged_of_before hright (.inl hplace)
  have hlist : s.recorded mb = (s.visits mb).flatMap Visit.ids := by
    rcases hr.listed mb with ⟨-, h⟩ | ⟨vs, v, -, hw, -⟩
    · exact h
    · have hkey := hw.key_eq hs hj (by rw [hplace]; rfl)
      obtain ⟨j'', hj'', h⟩ := hw
      rw [hkey, hj] at hj''
      obtain rfl := Option.some.inj hj''
      rcases h with ⟨h, -⟩ | ⟨h, -⟩ <;> · rw [hplace] at h; cases h
  refine ⟨hlist, ?_⟩
  rw [hlist]
  exact notMem_ids hs (hr.visited mb) (hs.isKey hj) (new_of_arrived hr hj hplace)
    ⟨hright.pos, by omega⟩

/-- The first two elements of a middlebox. -/
lemma records_record (hplace : j.place = .arrived mb) : Records (s.record boxes key j mb) := by
  have hright := hs.right key j hj
  have hkey := hs.isKey hj
  obtain ⟨hle, -, frame, hlast, hcarries⟩ := tagged_of_before hright (.inl hplace)
  obtain ⟨q, hq, heq⟩ := record_spec hs hj hplace
  set visit : Visit := ⟨key, j.frames.length, j.frames.getLast?.getD []⟩ with hvisit
  set j' : Journey := { j with packet := q, place := .recorded mb } with hj'
  set t := s.record boxes key j mb with ht
  have hjourneys : t.journeys = (s.setJourney key j').journeys := by rw [heq]
  have hdet : t.detLogger = s.detLogger.processStoreRequest
      (masterRecord mb (idOf key j.frames.length)) := by rw [heq]
  have hvisits : t.visits = Function.update s.visits mb (s.visits mb ++ [visit]) := by rw [heq]
  obtain ⟨hlist, hnew⟩ := new_of_record hs hr hj hplace
  obtain ⟨hrecorded, hindex, hdata⟩ := hr.stored hnew hdet (by rw [heq]; rfl)
  have hnotArrived : ∀ mb', j'.place ≠ .arrived mb' := fun mb' h => by
    cases (show Place.recorded mb = .arrived mb' from h)
  have hset : s.Continues (s.setJourney key j') :=
    continues_setJourney hj (List.Subset.refl _) List.prefix_rfl
      fun _ h => absurd h (hnotArrived _)
  have hcontinues : s.Continues t := fun k i hi => by
    rw [hjourneys]
    exact hset k i hi
  have htjourney : t.journeys key = some j' := by
    rw [hjourneys]
    exact Function.update_self ..
  refine ⟨fun mb' => ?_, fun mb' => ?_, fun mb' v hv => ?_, hindex, hdata⟩
  · by_cases hmb : mb' = mb
    · subst hmb
      refine .inr ⟨s.visits mb', visit, by rw [hvisits, Function.update_self],
        ⟨j', htjourney, .inl ⟨rfl, rfl⟩⟩, ?_⟩
      rw [hrecorded, if_pos rfl, hlist]
      rfl
    · refine (hr.listed mb').of_same (by rw [hrecorded, if_neg hmb])
        (by rw [hvisits, Function.update_of_ne hmb]) fun k i hi => ?_
      rw [hjourneys]
      refine sameInside_setJourney (fun i hi h => ?_) ?_ k i hi
      · obtain rfl := Option.some.inj (hj.symm.trans hi)
        rcases h with h | h <;> · rw [hplace] at h; cases h
      · rintro (h | h)
        · exact hmb (Place.recorded.inj h).symm
        · cases h
  · rw [hvisits, Function.update_apply]
    split_ifs with hmb
    · rw [List.map_append, List.nodup_append]
      refine ⟨hr.nodup mb, List.nodup_singleton _, fun k hk k' hk' => ?_⟩
      obtain rfl := List.mem_singleton.mp hk'
      rintro rfl
      exact new_of_arrived hr hj hplace hk
    · exact hr.nodup mb'
  · rw [hvisits, Function.update_apply] at hv
    split_ifs at hv with hmb
    · subst hmb
      rcases List.mem_append.mp hv with hv | hv
      · exact (hr.visited mb' v hv).mono hcontinues
      · obtain rfl := List.mem_singleton.mp hv
        have hmem : mb' ∈ j'.way := hright.way mb' (by rw [hplace]; rfl)
        have hframe : visit.frame = frame := by rw [hvisit, hlast, Option.getD_some]
        refine ⟨⟨j', htjourney, hmem, hnotArrived mb', ?_⟩, ⟨hright.pos, hle⟩, hframe ▸ hcarries⟩
        rw [hframe, ← hlast, List.getLast?_eq_getElem?]
    · exact (hr.visited mb' v hv).mono hcontinues

/-- A middlebox works on the packet that it has recorded. -/
lemma working_of_inside (hplace : j.place = .recorded mb ∨ j.place = .logged mb) :
    ∃ vs v, s.visits mb = vs ++ [v] ∧ v.key = key ∧
      (j.place = .recorded mb ∧ j.frames.length = v.versions ∨
        j.place = .logged mb ∧ j.frames.length = v.versions + 1) ∧
      s.recorded mb = vs.flatMap Visit.ids ++ [v.id] := by
  rcases hr.listed mb with ⟨hfree, -⟩ | ⟨vs, v, hv, hw, hlist⟩
  · obtain ⟨hrecorded, hlogged⟩ := hfree key j hj
    exact (hplace.elim hrecorded hlogged).elim
  · have hmb : j.place.middlebox = some mb := by rcases hplace with h | h <;> rw [h] <;> rfl
    have hkey := hw.key_eq hs hj hmb
    obtain ⟨j', hj', h⟩ := hw
    rw [hkey, hj] at hj'
    obtain rfl := Option.some.inj hj'
    exact ⟨vs, v, hv, hkey, h, hlist⟩

/-- The next elements of a middlebox. -/
lemma records_log (hplace : j.place = .recorded mb) : Records (s.log boxes key j mb) := by
  obtain ⟨q, hq, -, -, -, -, -, heq⟩ := log_spec hs hj hplace
  set j' : Journey := { j with packet := q, place := .logged mb, frames := j.frames ++ [q.data] }
    with hj'
  set t := s.log boxes key j mb with ht
  have hjourneys : t.journeys = (s.setJourney key j').journeys := by rw [heq]; rfl
  have hdet : t.detLogger = s.detLogger := by rw [heq]; rfl
  have hrecorded (mb' : MbId) : t.recorded mb' = s.recorded mb' := by rw [heq]; rfl
  have hvisits : t.visits = s.visits := by rw [heq]; rfl
  have hset : s.Continues (s.setJourney key j') :=
    continues_setJourney hj (List.Subset.refl _) (List.prefix_append ..) fun mb' h => by
      cases (show Place.logged mb = .arrived mb' from h)
  have hcontinues : s.Continues t := fun k i hi => by
    rw [hjourneys]
    exact hset k i hi
  refine hr.of_continues hcontinues hdet hvisits fun mb' => ?_
  by_cases hmb : mb' = mb
  · subst hmb
    obtain ⟨vs, v, hv, hkey, h, hlist⟩ := working_of_inside hs hr hj (.inl hplace)
    have hlength : j.frames.length = v.versions := by
      rcases h with ⟨-, h⟩ | ⟨h, -⟩
      · exact h
      · rw [hplace] at h
        cases h
    refine .inr ⟨vs, v, hvisits ▸ hv, ⟨j', ?_, .inr ⟨rfl, ?_⟩⟩, (hrecorded mb').trans hlist⟩
    · rw [hjourneys, hkey]
      exact Function.update_self ..
    · rw [hj', List.length_append, List.length_singleton, hlength]
  · refine (hr.listed mb').of_same (hrecorded mb') (by rw [hvisits]) fun k i hi => ?_
    rw [hjourneys]
    refine sameInside_setJourney (fun i hi h => ?_) ?_ k i hi
    · obtain rfl := Option.some.inj (hj.symm.trans hi)
      rcases h with h | h
      · exact hmb (Place.recorded.inj (hplace.symm.trans h)).symm
      · rw [hplace] at h
        cases h
    · rintro (h | h)
      · cases (show Place.logged mb = .recorded mb' from h)
      · exact hmb (Place.logged.inj h).symm

/-- The id that a packet has when it leaves its middlebox is new in the list, and is the second one
of the last visit. -/
lemma new_of_forward (hplace : j.place = .logged mb) :
    idOf key j.frames.length ∉ s.recorded mb ∧
      s.recorded mb ++ [idOf key j.frames.length]
        = (s.visits mb).flatMap Visit.ids := by
  have hkey := hs.isKey hj
  obtain ⟨vs, v, hv, hvkey, h, hlist⟩ := working_of_inside hs hr hj (.inr hplace)
  have hlength : j.frames.length = v.versions + 1 := by
    rcases h with ⟨h, -⟩ | ⟨-, h⟩
    · rw [hplace] at h
      cases h
    · exact h
  have hversions := (hr.visited mb v (hv ▸ List.mem_append_right _ List.mem_cons_self)).versions
  refine ⟨?_, ?_⟩
  · rw [hlist, List.mem_append, not_or]
    constructor
    · refine notMem_ids hs (fun v hvs => hr.visited mb v (hv ▸ List.mem_append_left _ hvs)) hkey ?_
        (by omega)
      have hnodup := hr.nodup mb
      rw [hv, List.map_append, List.nodup_append] at hnodup
      exact fun hmem => hnodup.2.2 key hmem v.key List.mem_cons_self hvkey.symm
    · intro hmem
      have hversion := congrArg version (List.mem_singleton.mp hmem)
      rw [Visit.id, hvkey, version_idOf hkey (by omega), version_idOf hkey (by omega)] at hversion
      omega
  · rw [hlist, hv, List.flatMap_append, List.append_assoc, hlength, ← hvkey]
    rfl

/-- The last element of a middlebox. -/
lemma records_forward (hplace : j.place = .logged mb) : Records (s.forward boxes key j mb) := by
  obtain ⟨q, hq, heq⟩ := forward_spec hs hj hplace
  set j' : Journey := { j with packet := q, place := .link } with hj'
  set t := s.forward boxes key j mb with ht
  have hjourneys : t.journeys = (s.setJourney key j').journeys := by rw [heq]
  have hdet : t.detLogger = s.detLogger.processStoreRequest
      (masterRecord mb (idOf key j.frames.length)) := by rw [heq]
  have hvisits : t.visits = s.visits := by rw [heq]; rfl
  obtain ⟨hnew, hlist⟩ := new_of_forward hs hr hj hplace
  obtain ⟨hrecorded, hindex, hdata⟩ := hr.stored hnew hdet (by rw [heq]; rfl)
  have hset : s.Continues (s.setJourney key j') :=
    continues_setJourney hj (List.Subset.refl _) List.prefix_rfl fun mb' h => by
      cases (show Place.link = .arrived mb' from h)
  have hcontinues : s.Continues t := fun k i hi => by
    rw [hjourneys]
    exact hset k i hi
  have houtside (mb' : MbId) : ¬ (j'.place = .recorded mb' ∨ j'.place = .logged mb') := by
    rintro (h | h)
    · cases (show Place.link = .recorded mb' from h)
    · cases (show Place.link = .logged mb' from h)
  refine ⟨fun mb' => ?_, fun mb' => hvisits ▸ hr.nodup mb', fun mb' v' hv' =>
    (hr.visited mb' v' (hvisits ▸ hv')).mono hcontinues, hindex, hdata⟩
  by_cases hmb : mb' = mb
  · subst hmb
    refine .inl ⟨fun k i hi => ?_, ?_⟩
    · rw [hjourneys] at hi
      rcases s.cases_setJourney key j' k with ⟨-, hk⟩ | ⟨hne, hk⟩
      · obtain rfl := Option.some.inj (hk.symm.trans hi)
        exact not_or.mp (houtside mb')
      · have hsame : j.place.middlebox = j.place.middlebox := rfl
        have halone := alone_of_same hs hj hsame mb' (by rw [hplace]; rfl) k i hne
          (hk.symm.trans hi)
        exact ⟨fun h => halone (by rw [h]; rfl), fun h => halone (by rw [h]; rfl)⟩
    · rw [hrecorded, if_pos rfl, hlist, hvisits]
  · refine (hr.listed mb').of_same (by rw [hrecorded, if_neg hmb]) (by rw [hvisits])
      fun k i hi => ?_
    rw [hjourneys]
    refine sameInside_setJourney (fun i hi h => ?_) (houtside mb') k i hi
    obtain rfl := Option.some.inj (hj.symm.trans hi)
    rcases h with h | h
    · rw [hplace] at h
      cases h
    · exact hmb (Place.logged.inj (hplace.symm.trans h)).symm

end

/-- The first ids of a list are removed, with their records. -/
lemma records_deleteFirst (hs : Inv boxes s) (hr : Records s) (mb : MbId) (n : UInt32) :
    Records (s.deleteFirst mb n) := by
  set t := s.deleteFirst mb n with ht
  have hcleared (mb' : MbId) : t.cleared mb' =
      if mb' = mb then s.cleared mb' ++ s.detLogger.removed mb' n else s.cleared mb' := by
    refine (Function.update_apply ..).trans ?_
    split_ifs with hmb
    · rw [hmb]
    · rfl
  have hprocessed (mb' : MbId) : t.detLogger.processed mb' =
      if mb' = mb then (s.detLogger.processed mb').drop (s.detLogger.removedCount mb' n)
      else s.detLogger.processed mb' := by
    rw [ht, deleteFirst, DetLoggerServer.processed_processDeleteFirst]
    split_ifs with hmb
    · rw [hmb]
    · rfl
  have hrecorded (mb' : MbId) : t.recorded mb' = s.recorded mb' := by
    rw [recorded, hcleared, hprocessed, recorded]
    split_ifs
    · rw [DetLoggerServer.removed, List.append_assoc, List.take_append_drop]
    · rfl
  refine ⟨fun mb' => (hr.listed mb').of_same (hrecorded mb') rfl fun _ _ _ => Iff.rfl, hr.nodup,
    fun mb' v hv => (hr.visited mb' v hv).mono (.of_journeys rfl), fun mb' => ?_, fun mb' id => ?_⟩
  · have hindex := DetLoggerServer.processedIndex_processDeleteFirst s.detLogger mb n mb'
    have hcount := s.detLogger.removedCount_eq mb n
    refine UInt32.toNat_inj.mp (hindex.trans ?_)
    rw [hprocessed]
    split_ifs with hmb
    · subst hmb
      rw [hr.index] at hcount ⊢
      rw [List.length_drop]
      simp only [UInt32.toNat_ofNat'] at hcount ⊢
      omega
    · rw [hr.index]
  · have hnodup := (List.nodup_append.mp (nodup_recorded hs hr mb')).2.1
    rw [ht, deleteFirst, DetLoggerServer.getPacketData_processDeleteFirst, hr.data]
    change _ = if id ∈ t.detLogger.processed mb' then _ else _
    rw [hprocessed]
    by_cases hmb : mb' = mb
    · subst hmb
      rw [← List.take_append_drop (s.detLogger.removedCount mb' n) (s.detLogger.processed mb'),
        List.nodup_append] at hnodup
      simp only [DetLoggerServer.removed, if_true, true_and]
      by_cases hid : id ∈ (s.detLogger.processed mb').take (s.detLogger.removedCount mb' n)
      · rw [if_pos hid, if_neg fun h => hnodup.2.2 id hid id h rfl]
      · rw [if_neg hid]
        refine if_congr ⟨fun h => ?_, List.mem_of_mem_drop⟩ rfl rfl
        rw [← List.take_append_drop (s.detLogger.removedCount mb' n) (s.detLogger.processed mb'),
          List.mem_append] at h
        exact h.resolve_left hid
    · rw [if_neg fun h => hmb h.1, if_neg hmb]

/-- **One step.**  Every step that is permitted keeps the lists and the records. -/
lemma records_step {a : Action} (hs : Inv boxes s) (hr : Records s) (hp : s.Permits boxes a)
    (h : s.step boxes a t) : Records t := by
  have hcontinues := continues_step hs hp h
  cases a with
  | enter p packet =>
      obtain rfl := h
      obtain ⟨hproducer, hmade, hlen, hsize⟩ := hp
      obtain ⟨q, hq, -, heq⟩ := enter_eq (n := s.made p) hproducer hlen hsize
      have hdet : (s.enter p packet).detLogger = s.detLogger := by
        rw [Network.enter, hs.producers p, heq]
        rfl
      have hrecorded (mb : MbId) : (s.enter p packet).recorded mb = s.recorded mb := by
        rw [Network.enter, hs.producers p, heq]
        rfl
      have hvisits : (s.enter p packet).visits = s.visits := by
        rw [Network.enter, hs.producers p, heq]
        rfl
      have hjourneys : (s.enter p packet).journeys
          = (s.setJourney (p, s.made p) ⟨q, .link, [q.data], []⟩).journeys := by
        rw [Network.enter, hs.producers p, heq]
        rfl
      refine hr.of_continues hcontinues hdet hvisits fun mb => (hr.listed mb).of_same (hrecorded mb)
        (by rw [hvisits]) fun k i hi => ?_
      rw [hjourneys]
      refine sameInside_setJourney (fun j hj => ((hs.keys _ j hj).2.false).elim) ?_ k i hi
      rintro (h | h) <;> cases h
  | arrive key mb =>
      obtain ⟨j, hj, hplace, -, rfl⟩ := h
      refine hr.of_continues hcontinues rfl rfl fun mb' => (hr.listed mb').of_same rfl rfl ?_
      refine sameInside_setJourney (fun i hi h => ?_) ?_
      · obtain rfl := Option.some.inj (hj.symm.trans hi)
        rcases h with h | h <;> · rw [hplace] at h; cases h
      · rintro (h | h) <;> cases h
  | record key =>
      obtain ⟨j, mb, hj, hplace, rfl⟩ := h
      exact records_record hs hr hj hplace
  | log key =>
      obtain ⟨j, mb, hj, hplace, rfl⟩ := h
      exact records_log hs hr hj hplace
  | forward key =>
      obtain ⟨j, mb, hj, hplace, rfl⟩ := h
      exact records_forward hs hr hj hplace
  | deletePackets ids =>
      obtain rfl := h
      exact hr.of_continues hcontinues rfl rfl fun mb => (hr.listed mb).of_same rfl rfl
        fun _ _ _ => Iff.rfl
  | deleteFirstPackets mb n =>
      obtain rfl := h
      exact records_deleteFirst hs hr mb n

lemma records_of_run {as : List Action} (h : Run (Steps boxes) new as s) :
    Inv boxes s ∧ Records s := by
  have hstep : ∀ s a t, Inv boxes s ∧ Records s → Steps boxes s a t → Inv boxes t ∧ Records t :=
    fun s a t hs hst => ⟨inv_step hs.1 hst.1 hst.2, records_step hs.1 hs.2 hst.1 hst.2⟩
  exact h.invariant (I := fun s => Inv boxes s ∧ Records s) hstep ⟨inv_new, records_new⟩

end Network

end FtThesis
