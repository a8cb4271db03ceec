/-
Are only ids cleared at the logger of a master that its slave has stored?

* `NoneLost`: every id that was removed at the logger of a master had been stored by the
  slave; `ClearsRight`: what is to hold when a request to remove ids is made;
* `removed_subset_of_common`: removing as many ids as are common removes ids that the
  slave had, if the list of the master has only grown since it was read;
* `noneLost_of_clearsRight`: no id is lost in a run with only such requests;
* `not_noneLost`: a run in which one is.
-/
import FtThesis.Library.Runs
import FtThesis.Manager.System

namespace FtThesis

open Requests Transition

namespace CleanupManagerServer

/-! ### The property and its condition -/

/-- Every id that was removed at the logger of the masters from the list of a master has
been stored by its slave. -/
def NoneLost (w : World) : Prop :=
  ∀ masterMbId, ∀ slaveData ∈ getSlaveMbData masterMbId,
    w.cleared masterMbId ⊆ w.stored slaveData.mbId

/-- The requests to remove ids at the logger of the masters that are right: they are not
from the branch that deletes all packets; and if the manager has found the list of the
master empty, it still is. -/
def ClearsRight (w : World) : ManagerRequest → Prop
  | .deleteFirstPackets .detLoggerClient masterMbId _ =>
      ¬ DeletesAll w.masterProcessedPacketIds w.slaveProcessedPacketIds
          (commonPackets w.masterProcessedPacketIds w.slaveProcessedPacketIds
            ∅).1.commonProcessed ∧
        (w.masterProcessedPacketIds = [] → w.detLogger.processed masterMbId = [])
  | _ => True

/-- The ids that a request removes at the logger of the masters are stored by the
slave. -/
def RemovesStored (w : World) : ManagerRequest → Prop
  | .deleteFirstPackets .detLoggerClient masterMbId n =>
      ∀ slaveData ∈ getSlaveMbData masterMbId,
        w.detLogger.removed masterMbId n ⊆ w.stored slaveData.mbId
  | _ => True

/-- What is asserted of a request. -/
def ClearAssert (q : ManagerRequest) (w : World) : Prop := ClearsRight w q → RemovesStored w q

/-- What a slave has in its list, it has stored. -/
def SlaveStored (w : World) : Prop := ∀ mb, w.slaveDetLogger.processed mb ⊆ w.stored mb

/-- How the others change the world: what the manager has read stays, the lists of the
masters and what the slaves have stored only grow. -/
structure Grows (w w' : World) : Prop where
  slaveStored : SlaveStored w'
  master_eq : w'.masterProcessedPacketIds = w.masterProcessedPacketIds
  slave_eq : w'.slaveProcessedPacketIds = w.slaveProcessedPacketIds
  processed : ∀ mb, w.detLogger.processed mb <+: w'.detLogger.processed mb
  stored : ∀ mb, w.stored mb ⊆ w'.stored mb

lemma isRely_grows : Program.IsRely Grows where
  trans h h' :=
    ⟨h'.slaveStored, h'.master_eq.trans h.master_eq, h'.slave_eq.trans h.slave_eq,
      fun mb => (h.processed mb).trans (h'.processed mb),
      fun mb => List.Subset.trans (h.stored mb) (h'.stored mb)⟩
  refl_of h := ⟨h.slaveStored, rfl, rfl, fun _ => List.prefix_rfl, fun _ => List.Subset.refl _⟩

/-! ### Removing the common ids -/

/-- Which ids are common does not depend on the replayed ones. -/
lemma commonLoop_already (maxBases : ℕ) (master slave : List PacketId) (b : Finset UInt32)
    (l : List PacketId) (a a' : Finset PacketBase) :
    (commonLoop maxBases master slave ⟨b, l, a⟩).1.commonProcessed
      = (commonLoop maxBases master slave ⟨b, l, a'⟩).1.commonProcessed := by
  induction master generalizing slave b l a a' with
  | nil => rfl
  | cons m master ih =>
      rcases slave with _ | ⟨s, slave⟩
      · rfl
      simp only [commonLoop, addPacket]
      split_ifs <;> first | exact ih _ _ _ _ _ | rfl

/-- If the list of the master has only grown since it was read, removing as many ids as
are common removes ids that the slave has. -/
lemma removed_subset_of_common {s : DetLoggerServer} {mb : MbId} {master slave : List PacketId}
    (already : Finset PacketBase) (hmaster : master ≠ []) (hbegins : master <+: s.processed mb)
    (hfit : 8 * master.length ≤ maxRetValLength) :
    s.removed mb (.ofNat (commonPackets master slave already).1.commonProcessed.length)
      ⊆ slave := by
  obtain ⟨n, hn, hcommon, hsub⟩ := commonLoop_eq_take (c := ⟨∅, [], already⟩) slave
    (room_of_fits hfit)
  have hcount : (commonPackets master slave already).1.commonProcessed.length = n := by
    rw [commonPackets, if_neg (by simpa using hmaster), getCommonProcessedPacketIds, hcommon,
      List.nil_append, List.length_take, min_eq_left hn]
  have hle : s.removedCount mb (.ofNat n) ≤ n := by
    calc s.removedCount mb (.ofNat n)
        = min (s.processedIndex mb).toNat (n % 2 ^ 32) := by
          rw [DetLoggerServer.removedCount_eq, UInt32.toNat_ofNat']
      _ ≤ n % 2 ^ 32 := min_le_right _ _
      _ ≤ n := Nat.mod_le _ _
  have htake : (s.processed mb).take n = master.take n := by
    obtain ⟨rest, hrest⟩ := hbegins
    rw [← hrest, List.take_append_of_le_length hn]
  rw [hcount, DetLoggerServer.removed]
  calc (s.processed mb).take (s.removedCount mb (.ofNat n))
      ⊆ (s.processed mb).take n := (List.take_prefix_take_left hle).subset
    _ = master.take n := htake
    _ ⊆ slave := hsub

/-- The world after `clearReplayedPackets` has read the two lists: what it has read are
the first ids of the master, and ids that the slave has stored. -/
structure HasRead (masterMbId slaveMbId : MbId) (master slave : List PacketId) (w : World) :
    Prop where
  master_eq : w.masterProcessedPacketIds = master
  slave_eq : w.slaveProcessedPacketIds = slave
  prefix_processed : master <+: w.detLogger.processed masterMbId
  subset_stored : slave ⊆ w.stored slaveMbId
  fits : 8 * master.length ≤ maxRetValLength

namespace HasRead

variable {masterMbId : MbId} {slaveData : MbData} {master slave : List PacketId} {w w' : World}

lemma mono {slaveMbId : MbId} (h : HasRead masterMbId slaveMbId master slave w)
    (hgrows : Grows w w') : HasRead masterMbId slaveMbId master slave w' where
  master_eq := hgrows.master_eq.trans h.master_eq
  slave_eq := hgrows.slave_eq.trans h.slave_eq
  prefix_processed := h.prefix_processed.trans (hgrows.processed masterMbId)
  subset_stored := List.Subset.trans h.subset_stored (hgrows.stored slaveMbId)
  fits := h.fits

variable (hslave : getSlaveMbData masterMbId = some slaveData)
  (h : HasRead masterMbId slaveData.mbId master slave w) (already : Finset PacketBase)

include hslave h

/-- What is asserted of the request to remove the common ids. -/
lemma clearAssert_common :
    ClearAssert (.deleteFirstPackets .detLoggerClient masterMbId
      (.ofNat (commonPackets master slave already).1.commonProcessed.length)) w := by
  rintro ⟨-, hempty⟩ slaveData' hslave'
  obtain rfl : slaveData = slaveData' := Option.some.inj (hslave.symm.trans hslave')
  rcases eq_or_ne master [] with hnil | hne
  · rw [DetLoggerServer.removed, hempty (h.master_eq.trans hnil), List.take_nil]
    exact List.nil_subset _
  · exact List.Subset.trans (removed_subset_of_common already hne h.prefix_processed h.fits)
      h.subset_stored

omit hslave in
/-- The request to remove all ids is not right. -/
lemma clearAssert_of_deletesAll
    (hall : DeletesAll master slave (commonPackets master slave already).1.commonProcessed)
    (n : UInt32) : ClearAssert (.deleteFirstPackets .detLoggerClient masterMbId n) w := by
  rintro ⟨hright, -⟩
  rw [h.master_eq, h.slave_eq] at hright
  have hsame : (commonPackets master slave ∅).1.commonProcessed
      = (commonPackets master slave already).1.commonProcessed := commonLoop_already ..
  exact absurd (hsame ▸ hall) hright

end HasRead

/-! ### The commands -/

section

variable (srt : VersionSort)

/-- The regular part of clearing keeps the assertion. -/
lemma clearCommon_keeps {masterMbId : MbId} {slaveData : MbData} {master slave : List PacketId}
    {w : World} (hslave : getSlaveMbData masterMbId = some slaveData)
    (h : HasRead masterMbId slaveData.mbId master slave w) (already : Finset PacketBase)
    (orphan : List PacketId) :
    (clearCommonPackets masterMbId slaveData.mbId
        (commonPackets master slave already).1.commonProcessed orphan).Keeps
      Grows (Performs srt) ClearAssert (fun _ _ => True) w := by
  have hrest (u : World) :
      (clearSlavePackets slaveData.mbId
          ((commonPackets master slave already).1.commonProcessed ++ orphan)).Keeps
        Grows (Performs srt) ClearAssert (fun _ _ => True) u := by
    rw [clearSlavePackets]
    split_ifs
    · exact .ask_bind fun _ _ => ⟨fun _ => trivial, fun _ _ _ => .ask_bind fun _ _ =>
        ⟨fun _ => trivial, fun _ _ _ => .pure fun _ _ => trivial⟩⟩
    · exact .pure fun _ _ => trivial
  rw [clearCommonPackets]
  split_ifs
  · exact .ask_bind fun t ht =>
      ⟨(h.mono ht).clearAssert_common hslave already, fun _ u _ => hrest u⟩
  · exact hrest w

/-- Clearing keeps the assertion. -/
lemma clear_keeps (masterMbId : MbId) (maxBases : ℤ) (already : Finset PacketBase) (w : World) :
    (clearReplayedPackets masterMbId maxBases already).Keeps Grows (Performs srt) ClearAssert
      (fun _ _ => True) w := by
  rw [clearReplayedPackets]
  cases hslave : getSlaveMbData masterMbId with
  | none => exact .pure fun _ _ => trivial
  | some slaveData =>
      refine .ask_bind fun t₁ h₁ => ⟨fun _ => trivial, fun master u₁ hu₁ => ?_⟩
      refine .ask_bind fun t₂ h₂ => ⟨fun _ => trivial, fun slave u₂ hu₂ => ?_⟩
      obtain ⟨hmaster, rfl⟩ := hu₁.getMaster
      obtain ⟨hslaveIds, rfl⟩ := hu₂.getSlave
      obtain ⟨hbegins, hfits⟩ := DetLoggerServer.prefix_of_getProcessed hmaster
      have hstored := (DetLoggerServer.prefix_of_getProcessed hslaveIds).1.subset
      have hread : HasRead masterMbId slaveData.mbId master slave
          { t₂ with slaveProcessedPacketIds := slave } :=
        ⟨h₂.master_eq, rfl, hbegins.trans (h₂.processed masterMbId),
          List.Subset.trans hstored (h₂.slaveStored slaveData.mbId), hfits⟩
      simp only
      split_ifs with hall
      · refine .ask_bind fun t₃ h₃ =>
          ⟨(hread.mono h₃).clearAssert_of_deletesAll already hall _, fun _ u₃ _ => ?_⟩
        exact .ask_bind fun _ _ => ⟨fun _ => trivial, fun _ _ _ => .pure fun _ _ => trivial⟩
      · exact .bind isRely_grows
          ((clearCommon_keeps srt hslave hread already _).mono
            fun _ _ _ => .pure fun _ _ => trivial)

/-- Replaying keeps the assertion, since it removes nothing. -/
lemma replay_keeps (masterMbId : MbId) (already : Finset PacketBase) (w : World) :
    (replay masterMbId already).Keeps Grows (Performs srt) ClearAssert (fun _ _ => True) w := by
  rw [replay]
  cases hslave : getSlaveMbData masterMbId with
  | none => exact .pure fun _ _ => trivial
  | some slaveData =>
      refine .ask_bind fun _ _ => ⟨fun _ => trivial, fun master _ _ => ?_⟩
      refine .ask_bind fun _ _ => ⟨fun _ => trivial, fun slave _ _ => ?_⟩
      refine .ofOption_bind fun unprocessed _ => ?_
      simp only
      split_ifs
      · exact .ask_bind fun _ _ => ⟨fun _ => trivial, fun _ _ _ => .pure fun _ _ => trivial⟩
      · exact .pure fun _ _ => trivial

/-- Every round of a command keeps the assertion. -/
lemma round_clearAssert (c : Command) (w : World) :
    c.round.Keeps Grows (Performs srt) ClearAssert (fun _ _ => True) w :=
  round_keeps isRely_grows (fun mb => replay_keeps srt mb ∅) (clear_keeps srt) c w

end

/-! ### One step -/

lemma Grows.refl {w : World} (hw : SlaveStored w) : Grows w w :=
  ⟨hw, rfl, rfl, fun _ => List.prefix_rfl, fun _ => List.Subset.refl _⟩

/-- What the others do makes the lists grow, and removes nothing. -/
lemma act_grows {w w' : World} {action : OtherAction} (hw : SlaveStored w)
    (h : w.act action = some w') : Grows w w' ∧ w'.cleared = w.cleared := by
  cases action with
  | masterStore pm =>
      simp only [World.act] at h
      split_ifs at h
      cases h
      refine ⟨⟨hw, rfl, rfl, fun mb => ?_, fun _ => List.Subset.refl _⟩, rfl⟩
      rw [DetLoggerServer.processed_processStoreRequest]
      split_ifs
      · exact List.prefix_append _ _
      · exact List.prefix_rfl
  | log wpd =>
      cases h
      exact ⟨⟨hw, rfl, rfl, fun _ => List.prefix_rfl, fun _ => List.Subset.refl _⟩, rfl⟩
  | consume mbId =>
      simp only [World.act] at h
      split at h
      · cases h
      · cases h
        exact ⟨⟨hw, rfl, rfl, fun _ => List.prefix_rfl, fun _ => List.Subset.refl _⟩, rfl⟩
  | slaveStore pm =>
      simp only [World.act] at h
      split at h
      · cases h
      · split_ifs at h
        cases h
        refine ⟨⟨fun mb => ?_, rfl, rfl, fun _ => List.prefix_rfl, fun mb => ?_⟩, rfl⟩
        · simp only [DetLoggerServer.processed_processStoreRequest, appendAt_apply]
          split_ifs with hmb
          · rw [hmb]
            exact List.append_subset.mpr ⟨List.subset_append_of_subset_left _ (hw _),
              List.subset_append_right _ _⟩
          · exact hw mb
        · simp only [appendAt_apply]
          split_ifs with hmb
          · rw [hmb]
            exact List.subset_append_left _ _
          · exact List.Subset.refl _

/-- A right request loses no id. -/
lemma noneLost_of_recorded {srt : VersionSort} {connected : Bool} {q : ManagerRequest}
    {w w' : World} (hw : NoneLost w) (hq : RemovesStored w q)
    (h : Recorded srt connected q w w') : NoneLost w' := by
  intro mb slaveData hslave
  rw [h.stored_eq, h.cleared_eq]
  refine List.append_subset.mpr ⟨hw mb slaveData hslave, ?_⟩
  cases q with
  | deleteFirstPackets client mbId n =>
      cases client with
      | detLoggerClient =>
          simp only [removedBy]
          split_ifs with hmb
          · subst hmb
            exact hq slaveData hslave
          · exact List.nil_subset _
      | slaveDetLoggerClient => exact List.nil_subset _
  | _ => exact List.nil_subset _

instance (w : World) : DecidablePred (ClearsRight w)
  | .deleteFirstPackets .detLoggerClient _ _ => inferInstanceAs (Decidable (_ ∧ (_ → _)))
  | .deleteFirstPackets .slaveDetLoggerClient _ _ => isTrue trivial
  | .getProcessedPacketIds _ _ _ => isTrue trivial
  | .replayPackets _ => isTrue trivial
  | .deletePackets _ => isTrue trivial

/-- The condition on a step: a request to remove ids at the logger of the masters is
right. -/
def ClearsRightAt (s : System) : Action → Prop
  | .request _ =>
      match s.control with
      | some (_, .request q _) => ClearsRight s.world q
      | _ => True
  | _ => True

instance (s : System) (a : Action) : Decidable (ClearsRightAt s a) :=
  match s, a with
  | ⟨w, some (_, .request q _)⟩, .request _ => inferInstanceAs (Decidable (ClearsRight w q))
  | ⟨_, some (_, .pure _)⟩, .request _ => isTrue trivial
  | ⟨_, some (_, .undefined)⟩, .request _ => isTrue trivial
  | ⟨_, none⟩, .request _ => isTrue trivial
  | _, .other _ => isTrue trivial
  | _, .command _ => isTrue trivial
  | _, .proceed => isTrue trivial

/-- The invariant of the runs in which all clearing is right. -/
structure Clearing (srt : VersionSort) (s : System) : Prop where
  slaveStored : SlaveStored s.world
  noneLost : NoneLost s.world
  ready : Ready srt Grows ClearAssert s

variable {srt : VersionSort}

lemma clearing_new (srt : VersionSort) : Clearing srt .new :=
  ⟨fun _ => List.nil_subset _, fun _ _ _ => List.nil_subset _, fun _ _ h => nomatch h⟩

lemma clearing_step {s t : System} {a : Action} (hs : Clearing srt s) (hright : ClearsRightAt s a)
    (h : step srt s a = some t) : Clearing srt t := by
  have hready : Ready srt Grows ClearAssert t :=
    ready_step isRely_grows hs.ready h (.refl hs.slaveStored)
      (fun _ _ hact => (act_grows hs.slaveStored hact).1) fun c => round_clearAssert srt c _
  rcases step_world h with
    ⟨action, -, hact⟩ | ⟨connected, c, q, k, answer, ha, hcontrol, hq⟩ | ⟨-, hsame⟩
  · obtain ⟨hgrows, hcleared⟩ := act_grows hs.slaveStored hact
    refine ⟨hgrows.slaveStored, fun mb slaveData hslave => ?_, hready⟩
    rw [hcleared]
    exact List.Subset.trans (hs.noneLost mb slaveData hslave) (hgrows.stored _)
  · have hrecorded := recorded_of_perform hq
    have hassert := hs.ready.assert_of_request (.refl hs.slaveStored) hcontrol
    refine ⟨fun mb => ?_, ?_, hready⟩
    · rw [hrecorded.stored_eq]
      exact List.Subset.trans (hrecorded.slave_subset mb) (hs.slaveStored mb)
    · subst ha
      rw [ClearsRightAt, hcontrol] at hright
      exact noneLost_of_recorded hs.noneLost (hassert hright) hrecorded
  · exact ⟨hsame ▸ hs.slaveStored, hsame ▸ hs.noneLost, hready⟩

end CleanupManagerServer

open CleanupManagerServer

variable {srt : VersionSort} {s : System} {as : List Action}

/-- **No unreplicated work is cleared.**  The manager executes one command at a time.  In every run
from empty logs in which each request to remove ids at the logger of a master is right, the
removed ids have been stored by the slave before. -/
theorem noneLost_of_clearsRight
    (h : Run (When ClearsRightAt (Fires (step srt))) .new as s) : NoneLost s.world :=
  (h.invariant (I := Clearing srt) (fun _ _ _ hs hst => clearing_step hs hst.1 hst.2)
    (clearing_new srt)).noneLost

/-- A packet is logged and processed, replayed, processed by the slave, and cleared. -/
def replayedAndCleared : List Action :=
  [.other (.log (oneByte 33)), .other (.masterStore (.new 6 33)), .command (.replay 6)] ++
    requests 3 ++ [.other (.consume 7), .other (.slaveStore (.new 7 33)), .command (.clear 6)] ++
    requests 5

/-- The system after this. -/
def clearedOnce : Option System :=
  replayedAndCleared.foldlM (guarded ClearsRightAt (step .stable)) .new

/-- The removed id has been stored. -/
theorem noneLost_of_replayed :
    clearedOnce.elim False fun s => s.world.cleared 6 = [33] ∧ NoneLost s.world := by
  have hcleared : clearedOnce.map (fun s => s.world.cleared 6) = some [33] := by decide +kernel
  obtain ⟨s, hs, hids⟩ := Option.map_eq_some_iff.mp hcleared
  rw [hs]
  exact ⟨hids, noneLost_of_clearsRight (Run.when_of_foldlM hs)⟩

/-- A packet is replayed twice.  The slave processes it once, and it is cleared.  The master
processes another packet and the slave the first one again: now the two lists have
nothing in common, and the next clear command deletes all packets. -/
def clearedAll : List Action :=
  [.other (.log (oneByte 33)), .other (.masterStore (.new 6 33)), .command (.replay 6)] ++
    requests 3 ++ [.command (.replay 6)] ++ requests 3 ++
    [.other (.consume 7), .other (.slaveStore (.new 7 33)), .command (.clear 6)] ++ requests 5 ++
    [.other (.masterStore (.new 6 65)), .other (.consume 7), .other (.slaveStore (.new 7 33)),
      .command (.clear 6)] ++ requests 4

/-- The id of the other packet is removed, and the slave has not stored it. -/
theorem not_noneLost :
    ¬ ∀ srt as s, Run (Fires (step srt)) .new as s → NoneLost s.world := by
  intro h
  have hlost : (clearedAll.foldlM (step .stable) .new).map
      (fun s => (s.world.cleared 6, s.world.stored 7)) = some ([33, 65], [33, 33]) := by
    decide +kernel
  obtain ⟨s, hs, hids⟩ := Option.map_eq_some_iff.mp hlost
  obtain ⟨hcleared, hstored⟩ := Prod.mk.inj hids
  have hmem := h .stable _ s (Run.of_foldlM hs) 6 _ rfl (a := 65)
  rw [hcleared, hstored] at hmem
  exact absurd (hmem (by decide)) (by decide)

end FtThesis
