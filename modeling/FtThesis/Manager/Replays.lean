/-
Is every packet sent to a slave at most once?

* `AtMostOnce`: no slave is sent two packets with the same base;
* `ReplaysRight`: when the manager asks for packets to be replayed, the slave had at the
  same position of its list whatever the master had and was sent before;
* `atMostOnce_of_recorded_iff`: one request keeps `AtMostOnce` exactly when it is right;
* `atMostOnce_iff`: and so does a run;
* `not_atMostOnce`: two replay commands, before the slave processes the packet.
-/
import FtThesis.Library.Runs
import FtThesis.Manager.System

namespace FtThesis

open Requests Transition AlignedLists PacketLoggerServer

namespace CleanupManagerServer

/-! ### The property and its condition -/

/-- The bases of the packets that were sent to a slave. -/
def sentBases (w : World) (mb : MbId) : List PacketBase :=
  (w.sent mb).map fun packet => base packet.packetId

/-- No base was sent twice to a slave. -/
def AtMostOnce (w : World) : Prop := ∀ mb, (sentBases w mb).Nodup

/-- The requests to replay packets that are right: if the packet logger has something to
send for an id in the list of the master, and has sent its base before, then the slave
has the id at the same position of its list. -/
def ReplaysRight (srt : VersionSort) (connected : Bool) (w : World) : ManagerRequest → Prop
  | .replayPackets r =>
      connected = true → ∀ k, ∀ hk : k < w.masterProcessedPacketIds.length,
        (sendPacket srt w.packetLogger w.masterProcessedPacketIds[k]).isSome = true →
        base w.masterProcessedPacketIds[k] ∈ sentBases w r.mbId →
        w.slaveProcessedPacketIds[k]? = some w.masterProcessedPacketIds[k]
  | _ => True

instance (srt : VersionSort) (connected : Bool) (w : World) :
    DecidablePred (ReplaysRight srt connected w)
  | .replayPackets _ => inferInstanceAs (Decidable (_ → ∀ _, ∀ _ : _ < _, _ → _ → _))
  | .getProcessedPacketIds _ _ _ => isTrue trivial
  | .deleteFirstPackets _ _ _ => isTrue trivial
  | .deletePackets _ => isTrue trivial

/-- The condition on a step: a request to replay packets is right. -/
def ReplaysRightAt (srt : VersionSort) (s : System) : Action → Prop
  | .request connected =>
      match s.control with
      | some (_, .request q _) => ReplaysRight srt connected s.world q
      | _ => True
  | _ => True

instance (srt : VersionSort) (s : System) (a : Action) : Decidable (ReplaysRightAt srt s a) :=
  match s, a with
  | ⟨w, some (_, .request q _)⟩, .request connected =>
      inferInstanceAs (Decidable (ReplaysRight srt connected w q))
  | ⟨_, some (_, .pure _)⟩, .request _ => isTrue trivial
  | ⟨_, some (_, .undefined)⟩, .request _ => isTrue trivial
  | ⟨_, none⟩, .request _ => isTrue trivial
  | _, .other _ => isTrue trivial
  | _, .command _ => isTrue trivial
  | _, .proceed => isTrue trivial

/-- What is asserted of a request: the list of the master, as it was read, has one id for
each base, and the ids that are to be replayed are those that the slave does not have at
the same position. -/
def ReplayAssert : ManagerRequest → World → Prop
  | .replayPackets r, w =>
      (w.masterProcessedPacketIds.map base).Nodup ∧
        r.packetIds = unmatched w.masterProcessedPacketIds w.slaveProcessedPacketIds
  | _, _ => True

/-- What the manager has read stays. -/
def SameRead (w w' : World) : Prop :=
  w'.masterProcessedPacketIds = w.masterProcessedPacketIds ∧
    w'.slaveProcessedPacketIds = w.slaveProcessedPacketIds

lemma isRely_sameRead : Program.IsRely SameRead where
  trans h h' := ⟨h'.1.trans h.1, h'.2.trans h.2⟩
  refl_of _ := ⟨rfl, rfl⟩

/-! ### The commands -/

section

variable (srt : VersionSort)

/-- Replaying keeps the assertion. -/
lemma replay_replayAssert (masterMbId : MbId) (w : World) :
    (replay masterMbId ∅).Keeps SameRead (Performs srt) ReplayAssert (fun _ _ => True) w := by
  rw [replay]
  cases hslave : getSlaveMbData masterMbId with
  | none => exact .pure fun _ _ => trivial
  | some slaveData =>
      refine .ask_bind fun t₁ _ => ⟨trivial, fun master u₁ hu₁ => ?_⟩
      refine .ask_bind fun t₂ h₂ => ⟨trivial, fun slave u₂ hu₂ => ?_⟩
      obtain ⟨hmaster, rfl⟩ := hu₁.getMaster
      obtain ⟨-, rfl⟩ := hu₂.getSlave
      have hnodup := DetLoggerServer.nodup_of_getProcessed hmaster
      refine .ofOption_bind fun r hr => ?_
      obtain rfl : (unmatched master slave, _) = r :=
        Option.some.inj ((getUnprocessedPacketIds_eq slave hnodup).symm.trans hr)
      simp only
      split_ifs
      · refine .ask_bind fun t₃ h₃ => ⟨?_, fun _ _ _ => .pure fun _ _ => trivial⟩
        have hm : t₃.masterProcessedPacketIds = master := h₃.1.trans h₂.1
        have hs : t₃.slaveProcessedPacketIds = slave := h₃.2
        rw [ReplayAssert, hm, hs]
        exact ⟨hnodup, rfl⟩
      · exact .pure fun _ _ => trivial

/-- Clearing keeps the assertion, since it replays nothing. -/
lemma clear_replayAssert (masterMbId : MbId) (maxBases : ℤ) (already : Finset PacketBase)
    (w : World) :
    (clearReplayedPackets masterMbId maxBases already).Keeps SameRead (Performs srt) ReplayAssert
      (fun _ _ => True) w := by
  have hslaves (slaveMbId : MbId) (ids : List PacketId) (w : World) :
      (clearSlavePackets slaveMbId ids).Keeps SameRead (Performs srt) ReplayAssert
        (fun _ _ => True) w := by
    rw [clearSlavePackets]
    split_ifs
    · exact .ask_bind fun _ _ => ⟨trivial, fun _ _ _ => .ask_bind fun _ _ =>
        ⟨trivial, fun _ _ _ => .pure fun _ _ => trivial⟩⟩
    · exact .pure fun _ _ => trivial
  have hcommon (slaveMbId : MbId) (ids orphan : List PacketId) (w : World) :
      (clearCommonPackets masterMbId slaveMbId ids orphan).Keeps SameRead (Performs srt)
        ReplayAssert (fun _ _ => True) w := by
    rw [clearCommonPackets]
    split_ifs
    · exact .ask_bind fun _ _ => ⟨trivial, fun _ u _ => hslaves _ _ u⟩
    · exact hslaves _ _ w
  rw [clearReplayedPackets]
  cases hslave : getSlaveMbData masterMbId with
  | none => exact .pure fun _ _ => trivial
  | some slaveData =>
      refine .ask_bind fun _ _ => ⟨trivial, fun master _ _ => ?_⟩
      refine .ask_bind fun _ _ => ⟨trivial, fun slave u _ => ?_⟩
      simp only
      split_ifs
      · exact .ask_bind fun _ _ => ⟨trivial, fun _ _ _ => .ask_bind fun _ _ =>
          ⟨trivial, fun _ _ _ => .pure fun _ _ => trivial⟩⟩
      · exact .bind isRely_sameRead
          ((hcommon _ _ _ u).mono fun _ _ _ => .pure fun _ _ => trivial)

/-- Every round of a command keeps the assertion. -/
lemma round_replayAssert (c : Command) (w : World) :
    c.round.Keeps SameRead (Performs srt) ReplayAssert (fun _ _ => True) w :=
  round_keeps isRely_sameRead (replay_replayAssert srt) (clear_replayAssert srt) c w

end

/-! ### One step -/

lemma act_sameRead {w w' : World} {action : OtherAction} (h : w.act action = some w') :
    SameRead w w' ∧ w'.sent = w.sent := by
  cases action with
  | masterStore pm =>
      simp only [World.act] at h
      split_ifs at h
      cases h
      exact ⟨⟨rfl, rfl⟩, rfl⟩
  | log wpd =>
      cases h
      exact ⟨⟨rfl, rfl⟩, rfl⟩
  | consume mbId =>
      simp only [World.act] at h
      split at h
      · cases h
      · cases h
        exact ⟨⟨rfl, rfl⟩, rfl⟩
  | slaveStore pm =>
      simp only [World.act] at h
      split at h
      · cases h
      · split_ifs at h
        cases h
        exact ⟨⟨rfl, rfl⟩, rfl⟩

variable {srt : VersionSort}

/-- What is sent for the ids that the slave does not have at the same position repeats no
base, exactly when the slave has what was sent before. -/
lemma nodup_append_unmatched_iff {bases : List PacketBase} {master slave : List PacketId}
    {sends : PacketId → Bool} (hbases : bases.Nodup) (hnodup : (master.map base).Nodup) :
    (bases ++ ((unmatched master slave).filter sends).map base).Nodup ↔
      ∀ k, ∀ hk : k < master.length, sends master[k] = true → base master[k] ∈ bases →
        slave[k]? = some master[k] := by
  have hsub : (((unmatched master slave).filter sends).map base).Sublist (master.map base) :=
    (List.filter_sublist.trans (unmatched_sublist master slave)).map base
  rw [List.nodup_append, and_iff_right hbases, and_iff_right (hsub.nodup hnodup)]
  simp only [List.mem_map, List.mem_filter, mem_unmatched_iff]
  constructor
  · intro h k hk hsend hbase
    by_contra hslave
    exact h _ hbase _ ⟨_, ⟨⟨k, List.getElem?_eq_getElem hk, hslave⟩, hsend⟩, rfl⟩ rfl
  · rintro h b hb _ ⟨id, ⟨⟨k, hid, hslave⟩, hsend⟩, rfl⟩ rfl
    obtain ⟨hk, rfl⟩ := List.getElem?_eq_some_iff.mp hid
    exact hslave (h k hk hsend hb)

lemma sentBases_of_recorded {connected : Bool} {q : ManagerRequest} {w w' : World}
    (h : Recorded srt connected q w w') (mb : MbId) :
    sentBases w' mb
      = sentBases w mb ++ (sentBy srt connected w q mb).map fun packet => base packet.packetId := by
  rw [sentBases, h.sent_eq, List.map_append, sentBases]

/-- A request keeps `AtMostOnce` exactly when it is right. -/
theorem atMostOnce_of_recorded_iff {connected : Bool} {q : ManagerRequest} {w w' : World}
    (hw : AtMostOnce w) (hassert : ReplayAssert q w) (h : Recorded srt connected q w w') :
    AtMostOnce w' ↔ ReplaysRight srt connected w q := by
  have hbases := sentBases_of_recorded h
  cases q with
  | replayPackets r =>
      obtain ⟨hnodup, hids⟩ := hassert
      have hother (mb : MbId) (hmb : mb ≠ r.mbId) : (sentBases w' mb).Nodup := by
        rw [hbases, sentBy, if_neg hmb, List.map_nil, List.append_nil]
        exact hw mb
      have honly : AtMostOnce w' ↔ (sentBases w' r.mbId).Nodup := by
        refine ⟨fun h => h r.mbId, fun h mb => ?_⟩
        rcases eq_or_ne mb r.mbId with rfl | hmb
        · exact h
        · exact hother mb hmb
      rw [honly, hbases, sentBy, if_pos rfl, processReplayRequest]
      cases connected with
      | false =>
          refine iff_of_true ?_ fun h => absurd h Bool.false_ne_true
          simpa using hw r.mbId
      | true =>
          have hsent : ∀ packets : List SentPacket,
              packets.map (fun packet => base packet.packetId)
                = (packets.map SentPacket.packetId).map base := fun packets => by
            rw [List.map_map, Function.comp_def]
          rw [if_pos rfl, hsent, map_packetId_filterMap_sendPacket, hids,
            nodup_append_unmatched_iff (hw r.mbId) hnodup]
          exact ⟨fun h _ => h, fun h => h rfl⟩
  | _ =>
      refine iff_of_true (fun mb => ?_) trivial
      simpa [hbases, sentBy] using hw mb

/-- No step restores `AtMostOnce`. -/
lemma atMostOnce_of_step {s t : System} {a : Action} (h : step srt s a = some t)
    (ht : AtMostOnce t.world) : AtMostOnce s.world := by
  intro mb
  rcases step_world h with
    ⟨action, -, hact⟩ | ⟨connected, c, q, k, answer, -, -, hq⟩ | ⟨-, hsame⟩
  · have hsent := (act_sameRead hact).2
    simpa only [sentBases, hsent] using ht mb
  · have hnodup := ht mb
    rw [sentBases_of_recorded (recorded_of_perform hq)] at hnodup
    exact hnodup.of_append_left
  · exact hsame ▸ ht mb

/-- One step keeps `AtMostOnce` exactly when it is right. -/
lemma atMostOnce_step_iff {s t : System} {a : Action} (hready : Ready srt SameRead ReplayAssert s)
    (hs : AtMostOnce s.world) (h : step srt s a = some t) :
    AtMostOnce t.world ↔ ReplaysRightAt srt s a := by
  rcases step_world h with
    ⟨action, rfl, hact⟩ | ⟨connected, c, q, k, answer, rfl, hcontrol, hq⟩ | ⟨ha, hsame⟩
  · refine iff_of_true (fun mb => ?_) trivial
    have hsent := (act_sameRead hact).2
    simpa only [sentBases, hsent] using hs mb
  · have hassert := hready.assert_of_request ⟨rfl, rfl⟩ hcontrol
    rw [ReplaysRightAt, hcontrol]
    exact atMostOnce_of_recorded_iff hs hassert (recorded_of_perform hq)
  · refine iff_of_true (hsame ▸ hs) ?_
    cases a with
    | request connected => exact absurd rfl (ha connected)
    | _ => trivial

end CleanupManagerServer

open CleanupManagerServer

variable {srt : VersionSort} {s : System} {as : List Action}

/-- **At most one replay.**  At the end of a run from empty logs, no slave has been sent
two packets with the same base, if and only if each request of the run to replay packets
was right. -/
theorem atMostOnce_iff (h : Run (Fires (step srt)) .new as s) :
    AtMostOnce s.world ↔ Run (When (ReplaysRightAt srt) (Fires (step srt))) .new as s := by
  refine h.iff_when (I := Ready srt SameRead ReplayAssert) (P := fun s => AtMostOnce s.world)
    (fun s a t hs hst => ?_) (fun _ _ _ => atMostOnce_of_step)
    (fun _ _ _ => atMostOnce_step_iff) ?_ ?_
  · exact ready_step isRely_sameRead hs hst ⟨rfl, rfl⟩ (fun _ _ hact => (act_sameRead hact).1)
      fun c => round_replayAssert srt c _
  · exact fun _ _ h => nomatch h
  · exact fun _ => List.nodup_nil

/-- A packet is logged and processed by the master, and a replay command is executed. -/
def replayedOnce : List Action :=
  [.other (.log (oneByte 33)), .other (.masterStore (.new 6 33)), .command (.replay 6)] ++
    requests 3

/-- The slave stores the packet, the master processes another one, and a second replay command is
executed. -/
def replayedAgain : List Action :=
  replayedOnce ++ [.other (.consume 7), .other (.slaveStore (.new 7 33)),
    .other (.log (oneByte 65)), .other (.masterStore (.new 6 65)), .command (.replay 6)] ++
    requests 3

/-- The second command sends the other packet, and no packet is sent twice. -/
theorem atMostOnce_of_replayedAgain :
    (replayedAgain.foldlM (guarded (ReplaysRightAt .stable) (step .stable)) .new).elim False
      fun s => sentBases s.world 7 = [1, 2] ∧ AtMostOnce s.world := by
  have hagain : (replayedAgain.foldlM (guarded (ReplaysRightAt .stable) (step .stable)) .new).map
      (fun s => sentBases s.world 7) = some [1, 2] := by
    decide +kernel
  obtain ⟨s, hs, hbases⟩ := Option.map_eq_some_iff.mp hagain
  have hright := Run.when_of_foldlM hs
  rw [hs]
  exact ⟨hbases, (atMostOnce_iff hright.of_when).mpr hright⟩

/-- Two replay commands, before the slave has processed the packet: it is sent twice. -/
theorem not_atMostOnce : ¬ ∀ srt as s, Run (Fires (step srt)) .new as s → AtMostOnce s.world := by
  intro h
  have htwice :
      ((replayedOnce ++ .command (.replay 6) :: requests 3).foldlM (step .stable) .new).map
        (fun s => sentBases s.world 7) = some [1, 1] := by
    decide +kernel
  obtain ⟨s, hs, hbases⟩ := Option.map_eq_some_iff.mp htwice
  have hnodup := h .stable _ s (Run.of_foldlM hs) 7
  rw [hbases] at hnodup
  exact absurd hnodup (by decide)

end FtThesis
