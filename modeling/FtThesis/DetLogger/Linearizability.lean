/-
The determinant logger under requests that run at the same time is the determinant logger under
one request after the other.

* `Answers`: one request of `DetLoggerServer` with its answer;
* `Simulates`: a section keeps the invariant, and does to the server what the request does that
  takes effect at it, if one does; `step_spec`: every careful section does so;
* `linearizable`: in a run of careful sections no section works on a freed record, and the
  requests, in the order in which they take effect, are a run of `DetLoggerServer`.
-/
import FtThesis.DetLogger.CarefulDeletions
import FtThesis.DetLogger.CarefulStores

namespace FtThesis

open Transition

namespace DetSections

variable {s t : DetSections} {u v : DetLoggerServer} {r : ℕ} {p : DetPhase} {pm : PALSManager}
  {mb mbId : MbId} {id packId : PacketId} {n : UInt32} {retVal : Memory.Mem} {a : ℕ}

/-! ### Requests that only read -/

/-- The reply with the ids of a list is that of the server. -/
lemma processGetProcessed_eq (u : DetLoggerServer) (mb : MbId) (allVersions : Bool) :
    u.processGetProcessedPacketsRequest mb allVersions = listReply (u.list mb) allVersions := by
  rw [DetLoggerServer.processGetProcessedPacketsRequest, DetLoggerServer.getServerProgressData,
    DetLoggerServer.list]
  cases hp : u.progressData mb with
  | none => cases allVersions <;> rfl
  | some spd => rfl

/-- The reply with the determinants of a packet is that of the server. -/
lemma processGetPals_eq (u : DetLoggerServer) (mb : MbId) (id : PacketId) (retVal : Memory.Mem) :
    u.processGetPalsRequest mb id retVal = palsReply mb id retVal (u.getPacketData mb id) := by
  rw [DetLoggerServer.processGetPalsRequest]
  cases u.getPacketData mb id <;> rfl

lemma cutList_new (n : UInt32) : cutList .new n = .new := by
  rw [cutList, DetLoggerServer.totalToRemove_new]
  rfl

/-- Where there is no list, the requests see the empty one. -/
lemma visible_of_none (hnone : s.progressData mb = none) : s.visible mb = .new := by
  have hspd : s.spd mb = .new := by rw [spd, hnone]; rfl
  rw [visible, hspd]
  split
  · exact cutList_new _
  · rfl

/-- A deletion where there is no list deletes nothing. -/
lemma Matches.deleteNothing (hu : s.Matches u) (hnone : s.progressData mbId = none) :
    s.Matches (u.processDeleteFirstPacketsRequest mbId n) := by
  have hlist : u.list mbId = .new := by rw [hu.list, visible_of_none hnone]
  have hremoved : u.removed mbId n = [] := by
    have h : u.removed mbId n =
      (u.list mbId).packetIdsVector.take
        (DetLoggerServer.totalToRemove (u.list mbId) n).toNat := rfl
    rw [h, hlist]
    exact List.take_nil
  refine ⟨fun mb => ?_, fun mb id h => ?_, fun mb id h => ?_⟩
  · rw [DetLoggerServer.list_processDeleteFirst]
    split_ifs with hmb
    · rw [hmb, hlist, visible_of_none hnone]
      exact cutList_new n
    · exact hu.list mb
  · rw [DetLoggerServer.getPacketData_processDeleteFirst, hremoved]
    simpa using hu.record mb id h
  · rw [DetLoggerServer.getPacketData_processDeleteFirst, hremoved]
    simpa using hu.unpublished mb id h

end DetSections

/-- One request of the server, with its answer. -/
def DetLoggerServer.Answers (u : DetLoggerServer) :
    DetRequest × DetAnswer → DetLoggerServer → Prop
  | (.store pm, .done), v => v = u.processStoreRequest pm
  | (.getProcessed mbId allVersions, .processed ids), v =>
      ids = u.processGetProcessedPacketsRequest mbId allVersions ∧ v = u
  | (.getPals mbId packId, .pals retVal reply), v =>
      reply = u.processGetPalsRequest mbId packId retVal ∧ v = u
  | (.deleteFirst mbId n, .done), v => v = u.processDeleteFirstPacketsRequest mbId n
  | _, _ => False

namespace DetSections

/-! ### Runs -/

variable {e : Option Event}

/-- The request with the given number has taken effect. -/
def committed (s : DetSections) (r : ℕ) : Option (DetRequest × DetAnswer) :=
  (s.requests r).committed

lemma commits_of_none (ht : t.requests = (s.setRequest r p).requests)
    (h : p.committed = (s.requests r).committed) : Commits committed s none t :=
  Commits.of_none DetSections.requests DetPhase.committed ht h

lemma commits_of_some {b : DetRequest × DetAnswer}
    (ht : t.requests = (s.setRequest r p).requests) (hold : (s.requests r).committed = none)
    (hnew : p.committed = some b) : Commits committed s (some (r, b)) t :=
  Commits.of_some DetSections.requests DetPhase.committed ht hold hnew

/-- A section keeps the invariant, and does to the server what the request does that takes effect
in it, if one does. -/
structure Simulates (s : DetSections) (u : DetLoggerServer) (e : Option Event) (t : DetSections) :
    Prop where
  inv : Inv t
  answers : ∃ v, Run (fun u (e : Event) => u.Answers e.2) u e.toList v ∧ t.Matches v
  commits : Commits committed s e t

section

variable (hs : Inv s) (hu : s.Matches u)

include hs

/-- A request that is answered from what is seen. -/
lemma answer_spec {request : DetRequest} {ans : DetAnswer}
    (hanswers : u.Answers (request, ans) v) (hv : s.Matches v)
    (hstores : (s.requests r).stores = none) (hcommitted : (s.requests r).committed = none)
    (h : s.answer r request ans = some (t, e)) : Simulates s u e t := by
  obtain ⟨rfl, rfl⟩ := Prod.mk.inj (Option.some.inj h)
  have hold : ∀ mb n, s.requests r ≠ .erasing mb n := by
    intro mb n heq
    rw [heq] at hcommitted
    cases hcommitted
  exact ⟨hs.setRequest hold nofun hstores.symm trivial,
    ⟨v, .single hanswers, hv.setRequest hs hold hstores.symm⟩,
    commits_of_some rfl hcommitted rfl⟩

include hu

/-- A request that only looks something up. -/
lemma lookup_spec (hr : s.requests r = .idle) (hstores : p.stores = none)
    (hcommitted : p.committed = none) (hholds : s.Holds p)
    (h : some (s.setRequest r p, none) = some (t, e)) : Simulates s u e t := by
  obtain ⟨rfl, rfl⟩ := Prod.mk.inj (Option.some.inj h)
  have hold : ∀ mb n, s.requests r ≠ .erasing mb n := by rw [hr]; exact nofun
  have hstores' : p.stores = (s.requests r).stores := by rw [hstores, hr]; rfl
  have hnew : ∀ mb n, p ≠ .erasing mb n := by
    rintro mb n rfl
    cases hcommitted
  exact ⟨hs.setRequest hold hnew hstores' hholds, ⟨u, .nil, hu.setRequest hs hold hstores'⟩,
    commits_of_none rfl (by rw [hcommitted, hr]; rfl)⟩

lemma getOrCreatePacketData_spec (hr : s.requests r = .idle)
    (hcareful : s.Careful (.getOrCreatePacketData r pm)) :
    Simulates s u none (s.getOrCreatePacketData r pm) := by
  obtain ⟨hflight, hlisted⟩ := hcareful
  refine ⟨hs.getOrCreatePacketData hr hflight hlisted,
    ⟨u, .nil, hu.getOrCreatePacketData hs hr hflight hlisted⟩, ?_⟩
  rw [getOrCreatePacketData_eq (hs.address_eq_none hflight hlisted)]
  exact commits_of_none rfl (by rw [hr]; rfl)

lemma updatePacketData_spec (hr : s.requests r = .storing pm a) :
    Simulates s u none (s.updatePacketData r pm a) :=
  ⟨hs.updatePacketData hr, ⟨u, .nil, hu.updatePacketData hs hr⟩,
    commits_of_none rfl (by rw [hr]; rfl)⟩

lemma getOrCreateServerProgressData_spec (hr : s.requests r = .updated pm) :
    Simulates s u none (s.getOrCreateServerProgressData r pm) :=
  ⟨hs.getOrCreateServerProgressData hr, ⟨u, .nil, hu.getOrCreateServerProgressData hs hr⟩,
    commits_of_none rfl (by rw [hr]; rfl)⟩

/-- A store takes effect when its id is added. -/
lemma addPacketId_spec (hr : s.requests r = .publishing pm)
    (hfree : s.spdLock pm.middleboxId = none) :
    Simulates s u (some (r, .store pm, .done)) (s.addPacketId r pm) :=
  ⟨hs.addPacketId hr hfree, ⟨_, .single rfl, hu.addPacketId hs hr hfree⟩,
    commits_of_some rfl (by rw [hr]; rfl) rfl⟩

lemma getList_spec {allVersions : Bool} (hr : s.requests r = .idle)
    (h : Steps s (.getList r mbId allVersions, e) t) : Simulates s u e t := by
  simp only [Steps, step, hr] at h
  split at h
  next hnone =>
    have hanswers : u.Answers (.getProcessed mbId allVersions, .processed (some [])) u := by
      refine ⟨?_, rfl⟩
      rw [processGetProcessed_eq, hu.list, visible_of_none hnone]
      cases allVersions <;> rfl
    exact answer_spec hs hanswers hu (by rw [hr]; rfl) (by rw [hr]; rfl) h
  next => exact lookup_spec (p := .listing mbId allVersions) hs hu hr rfl rfl trivial h

lemma readList_spec {allVersions : Bool} (hr : s.requests r = .listing mbId allVersions)
    (h : Steps s (.readList r, e) t) : Simulates s u e t := by
  simp only [Steps, step, hr] at h
  split_ifs at h with hfree
  have hanswers : u.Answers (.getProcessed mbId allVersions,
      .processed (listReply (s.spd mbId) allVersions)) u := by
    refine ⟨?_, rfl⟩
    rw [processGetProcessed_eq, hu.list, visible_of_free hfree]
  exact answer_spec hs hanswers hu (by rw [hr]; rfl) (by rw [hr]; rfl) h

lemma getPacketData_spec (hr : s.requests r = .idle)
    (hcareful : s.Careful (.getPacketData r mbId packId retVal))
    (h : Steps s (.getPacketData r mbId packId retVal, e) t) : Simulates s u e t := by
  simp only [Steps, step, hr] at h
  split at h
  next hnone =>
    have hanswers : u.Answers (.getPals mbId packId,
        .pals retVal (palsReply mbId packId retVal none)) u := by
      refine ⟨?_, rfl⟩
      rw [processGetPals_eq, hu.record _ _ hcareful, recordAt, hnone, Option.bind_none]
    exact answer_spec hs hanswers hu (by rw [hr]; rfl) (by rw [hr]; rfl) h
  next a ha =>
    exact lookup_spec (p := .asking mbId packId retVal a) hs hu hr rfl rfl ⟨ha, hcareful⟩ h

lemma convertPacketDataToPM_spec (hr : s.requests r = .asking mbId packId retVal a)
    (h : Steps s (.convertPacketDataToPM r, e) t) : Simulates s u e t := by
  have hholds := hs.holds r
  rw [hr] at hholds
  obtain ⟨ha, hno⟩ := hholds
  obtain ⟨record, hrecord⟩ := Option.isSome_iff_exists.mp (hs.live _ _ a ha).2
  simp only [Steps, step, hr] at h
  have hanswers : u.Answers (.getPals mbId packId, .pals retVal
      (palsReply mbId packId retVal (some ((s.memory a).getD .new)))) u := by
    refine ⟨?_, rfl⟩
    rw [processGetPals_eq, hu.record _ _ hno, recordAt, ha, Option.bind_some, hrecord,
      Option.getD_some]
  exact answer_spec hs hanswers hu (by rw [hr]; rfl) (by rw [hr]; rfl) h

lemma getListToCut_spec (hr : s.requests r = .idle)
    (h : Steps s (.getListToCut r mbId n, e) t) : Simulates s u e t := by
  simp only [Steps, step, hr] at h
  split at h
  next hnone =>
    have hanswers : u.Answers (.deleteFirst mbId n, .done)
      (u.processDeleteFirstPacketsRequest mbId n) := rfl
    exact answer_spec hs hanswers (hu.deleteNothing hnone) (by rw [hr]; rfl) (by rw [hr]; rfl) h
  next => exact lookup_spec (p := .deleting mbId n) hs hu hr rfl rfl trivial h

/-- A deletion takes effect when its records are deleted. -/
lemma deletePackets_spec (hr : s.requests r = .deleting mbId n) (hfree : s.spdLock mbId = none)
    (hcareful : s.Careful (.deletePackets r)) :
    Simulates s u (some (r, .deleteFirst mbId n, .done)) (s.deletePackets r mbId n) :=
  ⟨hs.deletePackets hr hfree (hcareful mbId n hr), ⟨_, .single rfl, hu.deletePackets hs hr hfree⟩,
    commits_of_some (s.requests_deletePackets r mbId n) (by rw [hr]; rfl) rfl⟩

lemma eraseIds_spec (hr : s.requests r = .erasing mbId n) :
    Simulates s u none (s.eraseIds r mbId n) :=
  ⟨hs.eraseIds hr, ⟨u, .nil, hu.eraseIds hs hr⟩, commits_of_none rfl (by rw [hr]; rfl)⟩

end

/-- **One section.**  A careful section keeps the invariant, and does to the server what the
request does that takes effect, if one does. -/
lemma step_spec {c : Section} (hs : Inv s) (hu : s.Matches u) (hcareful : s.Careful c)
    (h : Steps s (c, e) t) : Simulates s u e t := by
  have hstep := h
  rw [Steps] at h
  cases c with
  | getOrCreatePacketData r pm =>
      simp only [step] at h
      split at h
      next hr =>
        obtain ⟨rfl, rfl⟩ := Prod.mk.inj (Option.some.inj h)
        exact getOrCreatePacketData_spec hs hu hr hcareful
      · cases h
  | updatePacketData r =>
      simp only [step] at h
      split at h
      next pm a hr =>
        obtain ⟨rfl, rfl⟩ := Prod.mk.inj (Option.some.inj h)
        exact updatePacketData_spec hs hu hr
      · cases h
  | getOrCreateServerProgressData r =>
      simp only [step] at h
      split at h
      next pm hr =>
        obtain ⟨rfl, rfl⟩ := Prod.mk.inj (Option.some.inj h)
        exact getOrCreateServerProgressData_spec hs hu hr
      · cases h
  | addPacketId r =>
      simp only [step] at h
      split at h
      next pm hr =>
        split_ifs at h with hfree
        obtain ⟨rfl, rfl⟩ := Prod.mk.inj (Option.some.inj h)
        exact addPacketId_spec hs hu hr hfree
      · cases h
  | getList r mbId allVersions =>
      simp only [step] at h
      split at h
      next hr => exact getList_spec hs hu hr hstep
      · cases h
  | readList r =>
      simp only [step] at h
      split at h
      next hr => exact readList_spec hs hu hr hstep
      · cases h
  | getPacketData r mbId packId retVal =>
      simp only [step] at h
      split at h
      next hr => exact getPacketData_spec hs hu hr hcareful hstep
      · cases h
  | convertPacketDataToPM r =>
      simp only [step] at h
      split at h
      next hr => exact convertPacketDataToPM_spec hs hu hr hstep
      · cases h
  | getListToCut r mbId n =>
      simp only [step] at h
      split at h
      next hr => exact getListToCut_spec hs hu hr hstep
      · cases h
  | deletePackets r =>
      simp only [step] at h
      split at h
      next mbId n hr =>
        split_ifs at h with hfree
        obtain ⟨rfl, rfl⟩ := Prod.mk.inj (Option.some.inj h)
        exact deletePackets_spec hs hu hr hfree hcareful
      · cases h
  | eraseIds r =>
      simp only [step] at h
      split at h
      next mbId n hr =>
        obtain ⟨rfl, rfl⟩ := Prod.mk.inj (Option.some.inj h)
        exact eraseIds_spec hs hu hr
      · cases h

/-- No request is between two of its sections. -/
def Quiet (s : DetSections) : Prop :=
  ∀ r, s.requests r = .idle ∨ ∃ request ans, s.requests r = .answered request ans

/-- The lists and the records are those of the server. -/
def SameAs (s : DetSections) (u : DetLoggerServer) : Prop :=
  ∀ mb, u.list mb = s.spd mb ∧ ∀ id, u.getPacketData mb id = s.recordAt mb id

lemma Matches.sameAs (hu : s.Matches u) (hs : Inv s) (hquiet : s.Quiet) : s.SameAs u := by
  intro mb
  refine ⟨?_, fun id => hu.record mb id ?_⟩
  · rw [hu.list, visible_of_free]
    rw [Option.eq_none_iff_forall_ne_some]
    intro r hr
    obtain ⟨n, hn⟩ := (hs.lock mb r).mp hr
    rcases hquiet r with h | ⟨request, ans, h⟩ <;> · rw [h] at hn; cases hn
  · rintro ⟨r, pm, hr, -⟩
    rcases hquiet r with h | ⟨request, ans, h⟩ <;> · rw [h] at hr; cases hr

lemma matches_new : Matches new .new where
  list _ := rfl
  record _ _ _ := rfl
  unpublished _ _ h := by
    obtain ⟨r, pm, hr, -⟩ := h
    cases hr

lemma Inv.isLive (hs : Inv s) (c : Section) : s.Live c := by
  cases c with
  | updatePacketData r =>
      intro pm a hr
      have hholds := hs.holds r
      rw [hr] at hholds
      exact (hs.live _ _ a hholds.1).2
  | convertPacketDataToPM r =>
      intro mb id retVal a hr
      have hholds := hs.holds r
      rw [hr] at hholds
      exact (hs.live _ _ a hholds.1).2
  | _ => exact trivial

/-- The steps that are careful. -/
def CarefulSteps : DetSections → Section × Option Event → DetSections → Prop :=
  When (fun s a => s.Careful a.1) Steps

/-- **The determinant logger is linearizable.**  In a run in which no store begins for a packet
that is listed or has a running store, no record is looked up while a store for its packet is
running, and no record is deleted while another request holds it: no section works on a freed
record; each request takes effect at most once, and a finished one has, with its answer; and the
requests, in the order in which they take effect and with these answers, are a run of the server
that takes one request after the other, which ends in the same state as soon as no request is
running. -/
theorem linearizable {as : List (Section × Option Event)} {s : DetSections}
    (h : Run CarefulSteps new as s) :
    Run (With (fun s a _ => s.Live a.1) Steps) new as s ∧
      ((events as).map Prod.fst).Nodup ∧
      (∀ r request ans, s.requests r = .answered request ans → (r, request, ans) ∈ events as) ∧
      ∃ u, Run (fun u (e : Event) => u.Answers e.2) DetLoggerServer.new (events as) u ∧
        (s.Quiet → s.SameAs u) := by
  have hkeep : ∀ s a t, (∃ u, Inv s ∧ s.Matches u) → CarefulSteps s a t →
      ∃ u, Inv t ∧ t.Matches u := by
    rintro s a t ⟨u, hs, hu⟩ hst
    obtain ⟨ht, ⟨v, -, hv⟩, -⟩ := step_spec hs hu hst.1 hst.2
    exact ⟨v, ht, hv⟩
  have hrun := h.keeping hkeep ⟨.new, inv_new, matches_new⟩
  have hcommits : ∀ s a e t, ((∃ u, Inv s ∧ s.Matches u) ∧ CarefulSteps s (a, e) t) →
      Commits committed s e t := by
    rintro s a e t ⟨⟨u, hs, hu⟩, hst⟩
    exact (step_spec hs hu hst.1 hst.2).commits
  have hsim : ∀ s a e t u, (Inv s ∧ s.Matches u) → CarefulSteps s (a, e) t →
      ∃ v, Run (fun u (e : Event) => u.Answers e.2) u e.toList v ∧ Inv t ∧ t.Matches v := by
    rintro s a e t u ⟨hs, hu⟩ hst
    obtain ⟨ht, ⟨v, hv, htv⟩, -⟩ := step_spec hs hu hst.1 hst.2
    exact ⟨v, hv, ht, htv⟩
  obtain ⟨hnodup, hmem⟩ := hrun.commits hcommits fun _ => rfl
  obtain ⟨u, hspec, hs, hu⟩ := h.simulates hsim ⟨inv_new, matches_new⟩
  refine ⟨hrun.mono fun s a t hst => ?_, hnodup, fun r request ans hr => ?_,
    u, hspec, hu.sameAs hs⟩
  · obtain ⟨⟨u, hs, -⟩, hstep⟩ := hst
    exact ⟨hstep.2, hs.isLive a.1⟩
  · rw [hmem, committed, hr]
    rfl

/-- Two stores, of which the later one takes effect first, and a deletion of the first id. -/
theorem linearizable_twoStores : ∃ (s : DetSections) (u : DetLoggerServer),
    Run (fun u (e : Event) => u.Answers e.2) DetLoggerServer.new
      [(1, .store (.new 1 65), .done), (0, .store (.new 1 33), .done),
        (2, .deleteFirst 1 1, .done)] u ∧ s.SameAs u := by
  have hcareful : ∃ s : DetSections, Run CarefulSteps new [
      (.getOrCreatePacketData 0 (.new 1 33), none), (.getOrCreatePacketData 1 (.new 1 65), none),
      (.updatePacketData 1, none), (.getOrCreateServerProgressData 1, none),
      (.updatePacketData 0, none), (.addPacketId 1, some (1, .store (.new 1 65), .done)),
      (.getOrCreateServerProgressData 0, none),
      (.addPacketId 0, some (0, .store (.new 1 33), .done)), (.getListToCut 2 1 1, none),
      (.deletePackets 2, some (2, .deleteFirst 1 1, .done)), (.eraseIds 2, none)] s ∧ s.Quiet := by
    refine ⟨_, .cons ⟨⟨?_, nofun⟩, rfl⟩ (.cons ⟨⟨?_, nofun⟩, rfl⟩ (.cons ⟨trivial, rfl⟩
      (.cons ⟨trivial, rfl⟩ (.cons ⟨trivial, rfl⟩ (.cons ⟨trivial, rfl⟩ (.cons ⟨trivial, rfl⟩
        (.cons ⟨trivial, rfl⟩ (.cons ⟨trivial, rfl⟩ (.cons ⟨?_, rfl⟩
          (.cons ⟨trivial, rfl⟩ .nil)))))))))), fun r => ?_⟩
    · rintro ⟨r, pm, h, -⟩
      cases h
    · rintro ⟨r, pm, h, -, hid⟩
      match r with
      | 0 =>
          obtain rfl := Option.some.inj h
          exact absurd hid (by decide)
      | r + 1 => cases h
    · exact fun mbId n _ id _ r retVal a h => match r, h with
        | 0, h | 1, h | 2, h => by cases h
        | r + 3, h => by cases h
    · match r with
      | 0 | 1 | 2 => exact .inr ⟨_, _, rfl⟩
      | r + 3 => exact .inl rfl
  obtain ⟨s, hs, hquiet⟩ := hcareful
  obtain ⟨-, -, -, u, hrun, hsame⟩ := linearizable hs
  exact ⟨s, u, hrun, hsame hquiet⟩

end DetSections

end FtThesis
