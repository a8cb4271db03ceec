/-
The masters, the manager and the slaves together.

The manager executes its commands while packets are on their way through the masters.  Both use the
loggers of the masters: the masters store there what they do, and the manager reads and deletes it.

* `Deployment`, `Event`, `step`: the network and the manager, which have these loggers in common;
* `Agrees`: what the two know of each other; `follows_network`, `follows_manager`: the manager in
  its world can follow every event;
* `requested`: the deletions that the manager requests;
* `refines_both`: a run of both is a run of the network, and one of the manager in its world.
-/
import FtThesis.Journey.Cleanup
import FtThesis.Library.Linearization

namespace FtThesis

open CleanupManagerServer PacketLoggerServer Transition

/-- The network, and the manager in its world. -/
structure Deployment where
  network : Network
  manager : System

namespace Deployment

/-! ### What happens -/

/-- An action of the network, or one of the manager and the slaves. -/
inductive Event
  | network (a : Network.Action)
  | manager (a : CleanupManagerServer.Action)

/-- Nothing has happened. -/
def new : Deployment := ⟨.new, .new⟩

/-- The manager, with the loggers of the masters as the network has them. -/
def seenBy (u : System) (s : Network) : System :=
  { u with world := { u.world with detLogger := s.detLogger, packetLogger := s.packetLogger } }

/-- What a request of the manager is in the network. -/
def deletions : ManagerRequest → List Network.Action
  | .deleteFirstPackets .detLoggerClient mbId numPackets => [.deleteFirstPackets mbId numPackets]
  | .deletePackets packetsToDelete => [.deletePackets packetsToDelete]
  | _ => []

/-- What an action of the manager is in the network. -/
def deletionsOf (u : System) : CleanupManagerServer.Action → List Network.Action
  | .request _ =>
      match u.control with
      | some (_, .request q _) => deletions q
      | _ => []
  | _ => []

/-- The actions of the network that are not requests of the manager. -/
def ofMasters : Network.Action → List Network.Action
  | .deletePackets _ | .deleteFirstPackets .. => []
  | a => [a]

/-- The actions of the network that are requests of the manager. -/
def ofRequests : Network.Action → List Network.Action
  | .deletePackets packetsToDelete => [.deletePackets packetsToDelete]
  | .deleteFirstPackets mbId numPackets => [.deleteFirstPackets mbId numPackets]
  | _ => []

/-- The deletions that the manager requests while it executes the actions. -/
def requested (srt : VersionSort) :
    System → List CleanupManagerServer.Action → List Network.Action
  | _, [] => []
  | u, a :: as => deletionsOf u a ++
      (CleanupManagerServer.step srt u a).elim [] fun v => requested srt v as

/-- The actions in the world of the manager that are not those of the masters and the producers. -/
def ofManager : CleanupManagerServer.Action → List CleanupManagerServer.Action
  | .other (.masterStore _) | .other (.log _) => []
  | a => [a]

/-- What the masters and the producers do at an event. -/
def Event.masters : Event → List Network.Action
  | .network a => [a]
  | .manager _ => []

/-- What the manager and the slaves do at an event. -/
def Event.managers : Event → List CleanupManagerServer.Action
  | .network _ => []
  | .manager a => [a]

/-- An action of the masters and the producers that is permitted, which the manager sees at the
loggers; or one of the manager and the slaves, with what it is in the network. -/
def step (boxes : MbId → Middlebox) (srt : VersionSort) (s : Deployment) :
    Event → Deployment → Prop
  | .network a, t => ofMasters a = [a] ∧ Network.Steps boxes s.network a t.network ∧
      t.manager = seenBy s.manager t.network
  | .manager a, t => ofManager a = [a] ∧
      CleanupManagerServer.step srt s.manager a = some t.manager ∧
      Run (Network.Steps boxes) s.network (deletionsOf s.manager a) t.network

/-! ### What the two know of each other -/

variable {boxes : MbId → Middlebox} {srt : VersionSort} {s t : Deployment} {n : Network}
  {u : System} {key : ℕ × ℕ} {j : Journey} {mb : MbId}

/-- The loggers of the masters are the same, and so are the ids that were removed. -/
structure Agrees (n : Network) (u : System) : Prop where
  detLogger : u.world.detLogger = n.detLogger
  packetLogger : u.world.packetLogger = n.packetLogger
  cleared : u.world.cleared = n.cleared

lemma Agrees.seenBy_self (h : Agrees n u) : seenBy u n = u := by
  obtain ⟨⟨detLogger, slaveDetLogger, packetLogger⟩, control⟩ := u
  obtain ⟨rfl, rfl, -⟩ := h
  rfl

/-- The manager after some actions of the others, which are those of the network. -/
def Follows (srt : VersionSort) (u : System) (n : Network) : Prop :=
  ∃ bs, Run (Fires (CleanupManagerServer.step srt)) u bs (seenBy u n) ∧ bs.flatMap ofManager = []

/-- A fragment is logged. -/
lemma follows_log {n' : Network} (h : Agrees n u) {wpd : WrappedPacketData}
    (hdet : n'.detLogger = n.detLogger)
    (hlogger : n'.packetLogger = n.packetLogger.processStoreRequest wpd) : Follows srt u n' := by
  refine ⟨[.other (.log wpd)], .single ?_, rfl⟩
  rw [Fires, CleanupManagerServer.step, World.act, seenBy, hdet, hlogger, ← h.detLogger,
    ← h.packetLogger]
  rfl

/-- A master stores the determinants for an id that is new to it. -/
lemma follows_masterStore {n' : Network} (h : Agrees n u) {id : PacketId}
    (hnew : id ∉ n.recorded mb)
    (hdet : n'.detLogger = n.detLogger.processStoreRequest (masterRecord mb id))
    (hlogger : n'.packetLogger = n.packetLogger) : Follows srt u n' := by
  refine ⟨[.other (.masterStore (masterRecord mb id))], .single ?_, rfl⟩
  have hfree : ¬ (id ∈ u.world.cleared mb ∨ id ∈ u.world.detLogger.processed mb) := by
    rw [h.cleared, h.detLogger, ← List.mem_append]
    exact hnew
  rw [Fires, CleanupManagerServer.step, World.act, middleboxId_masterRecord, packetId_masterRecord,
    if_neg hfree, seenBy, hdet, hlogger, ← h.detLogger, ← h.packetLogger]
  rfl

/-- **A step of the network.**  The world of the manager can follow it. -/
lemma follows_network (srt : VersionSort) {n' : Network} {a : Network.Action} (h : Agrees n u)
    (hs : n.Inv boxes) (hr : n.Records) (ha : ofMasters a = [a])
    (hstep : Network.Steps boxes n a n') :
    Follows srt u n' ∧ n'.cleared = n.cleared := by
  obtain ⟨hp, hstep⟩ := hstep
  cases a with
  | enter p packet =>
      obtain rfl := hstep
      obtain ⟨hproducer, hmade, hlen, hsize⟩ := hp
      obtain ⟨q, hq, -, heq⟩ := enter_eq (n := n.made p) hproducer hlen hsize
      set wpd := wholeFrame (firstId (p, n.made p)) q.data hq
      have hdet : (n.enter p packet).detLogger = n.detLogger := by
        rw [Network.enter, hs.producers p, heq]
        rfl
      have hlogger : (n.enter p packet).packetLogger = n.packetLogger.processStoreRequest wpd := by
        rw [Network.enter, hs.producers p, heq]
        rfl
      refine ⟨follows_log h hdet hlogger, ?_⟩
      rw [Network.enter, hs.producers p, heq]
      rfl
  | arrive key mb =>
      obtain ⟨j, -, -, -, rfl⟩ := hstep
      exact ⟨⟨[], h.seenBy_self ▸ .nil, rfl⟩, rfl⟩
  | record key =>
      obtain ⟨j, mb, hj, hplace, rfl⟩ := hstep
      obtain ⟨q, -, heq⟩ := Network.record_spec hs hj hplace
      have hnew := (Network.new_of_record hs hr hj hplace).2
      rw [heq]
      exact ⟨follows_masterStore h hnew rfl rfl, rfl⟩
  | log key =>
      obtain ⟨j, mb, hj, hplace, rfl⟩ := hstep
      obtain ⟨q, hq, -, -, -, -, -, heq⟩ := Network.log_spec hs hj hplace
      rw [heq]
      exact ⟨follows_log h rfl rfl, rfl⟩
  | forward key =>
      obtain ⟨j, mb, hj, hplace, rfl⟩ := hstep
      obtain ⟨q, -, heq⟩ := Network.forward_spec hs hj hplace
      have hnew := (Network.new_of_forward hs hr hj hplace).1
      rw [heq]
      exact ⟨follows_masterStore h hnew rfl rfl, rfl⟩
  | deletePackets ids => cases ha
  | deleteFirstPackets mb n => cases ha

/-- A request of the manager and its deletions in the network. -/
lemma agrees_of_perform {connected : Bool} {q : ManagerRequest} {answer : Answer q} {w : World}
    {c : Option (Command × Manager (Option Bool))} {n' : Network} (h : Agrees n u)
    (hw : perform srt connected q u.world = some (answer, w))
    (hrun : Run (Network.Steps boxes) n (deletions q) n') : Agrees n' ⟨w, c⟩ := by
  cases q with
  | getProcessedPacketIds client mbId allVersions =>
      obtain rfl := hrun.nil_inv
      cases client <;> obtain ⟨ids, -, heq⟩ := Option.map_eq_some_iff.mp hw <;> cases heq <;>
        exact ⟨h.detLogger, h.packetLogger, h.cleared⟩
  | deleteFirstPackets client mbId numPackets =>
      cases client with
      | detLoggerClient =>
          obtain ⟨m, hfirst, hrest⟩ := hrun.cons_inv
          obtain rfl := hrest.nil_inv
          obtain ⟨-, rfl⟩ := hfirst
          cases hw
          refine ⟨?_, h.packetLogger, ?_⟩
          · change u.world.detLogger.processDeleteFirstPacketsRequest mbId numPackets = _
            rw [h.detLogger]
            rfl
          · change appendAt u.world.cleared mbId (u.world.detLogger.removed mbId numPackets) = _
            rw [h.detLogger, h.cleared]
            rfl
      | slaveDetLoggerClient =>
          obtain rfl := hrun.nil_inv
          cases hw
          exact ⟨h.detLogger, h.packetLogger, h.cleared⟩
  | replayPackets r =>
      obtain rfl := hrun.nil_inv
      simp only [perform] at hw
      split_ifs at hw
      cases hw
      exact ⟨h.detLogger, h.packetLogger, h.cleared⟩
  | deletePackets ids =>
      obtain ⟨m, hfirst, hrest⟩ := hrun.cons_inv
      obtain rfl := hrest.nil_inv
      obtain ⟨-, rfl⟩ := hfirst
      simp only [perform] at hw
      split_ifs at hw
      cases hw
      refine ⟨h.detLogger, ?_, h.cleared⟩
      change u.world.packetLogger.processDeletePacketsRequest ids = _
      rw [h.packetLogger]
      rfl

/-- **A step of the manager.**  In the network it is the deletions of its request. -/
lemma follows_manager {v : System} {n' : Network} {a : CleanupManagerServer.Action}
    (h : Agrees n u) (ha : ofManager a = [a]) (hstep : CleanupManagerServer.step srt u a = some v)
    (hrun : Run (Network.Steps boxes) n (deletionsOf u a) n') : Agrees n' v := by
  cases a with
  | other action =>
      obtain rfl := hrun.nil_inv
      obtain ⟨w, hw, rfl⟩ := Option.map_eq_some_iff.mp hstep
      cases action with
      | masterStore pm => cases ha
      | log wpd => cases ha
      | consume mbId =>
          simp only [World.act] at hw
          split at hw
          · cases hw
          · obtain rfl := Option.some.inj hw
            exact ⟨h.detLogger, h.packetLogger, h.cleared⟩
      | slaveStore pm =>
          simp only [World.act] at hw
          split at hw
          · cases hw
          · split_ifs at hw
            obtain rfl := Option.some.inj hw
            exact ⟨h.detLogger, h.packetLogger, h.cleared⟩
  | command c =>
      obtain rfl := hrun.nil_inv
      simp only [CleanupManagerServer.step] at hstep
      split at hstep
      · obtain rfl := Option.some.inj hstep
        exact ⟨h.detLogger, h.packetLogger, h.cleared⟩
      · cases hstep
  | request connected =>
      simp only [CleanupManagerServer.step] at hstep
      split at hstep
      · rename_i c q k hcontrol
        obtain ⟨⟨answer, w⟩, hw, rfl⟩ := Option.map_eq_some_iff.mp hstep
        have hdeletions : deletionsOf u (.request connected) = deletions q := by
          rw [deletionsOf, hcontrol]
        rw [hdeletions] at hrun
        exact agrees_of_perform h hw hrun
      · cases hstep
  | proceed =>
      obtain rfl := hrun.nil_inv
      simp only [CleanupManagerServer.step] at hstep
      split at hstep
      · obtain rfl := Option.some.inj hstep
        exact ⟨h.detLogger, h.packetLogger, h.cleared⟩
      · obtain rfl := Option.some.inj hstep
        exact ⟨h.detLogger, h.packetLogger, h.cleared⟩
      · cases hstep

/-! ### Runs -/

/-- What is known of both: the network is as it should be, and the manager agrees with it. -/
structure Inv (boxes : MbId → Middlebox) (s : Deployment) : Prop where
  network : s.network.Inv boxes
  records : s.network.Records
  agrees : Agrees s.network s.manager

lemma inv_new : Inv boxes new := ⟨Network.inv_new, Network.records_new, rfl, rfl, rfl⟩

/-- What is kept by a step is kept by the deletions of a request. -/
lemma network_of_run {as : List Network.Action} {n' : Network} (hs : n.Inv boxes) (hr : n.Records)
    (h : Run (Network.Steps boxes) n as n') : n'.Inv boxes ∧ n'.Records :=
  h.invariant (I := fun n => n.Inv boxes ∧ n.Records)
    (fun _ _ _ hn hst => ⟨Network.inv_step hn.1 hst.1 hst.2,
      Network.records_step hn.1 hn.2 hst.1 hst.2⟩) ⟨hs, hr⟩

lemma inv_step {e : Event} (hs : Inv boxes s) (h : step boxes srt s e t) : Inv boxes t := by
  cases e with
  | network a =>
      obtain ⟨ha, hstep, hmanager⟩ := h
      obtain ⟨hnetwork, hrecords⟩ := network_of_run hs.network hs.records (.single hstep)
      obtain ⟨-, hcleared⟩ :=
        follows_network .stable hs.agrees hs.network hs.records ha hstep
      refine ⟨hnetwork, hrecords, ?_⟩
      rw [hmanager]
      exact ⟨rfl, rfl, hs.agrees.cleared.trans hcleared.symm⟩
  | manager a =>
      obtain ⟨ha, hstep, hrun⟩ := h
      obtain ⟨hnetwork, hrecords⟩ := network_of_run hs.network hs.records hrun
      exact ⟨hnetwork, hrecords, follows_manager hs.agrees ha hstep hrun⟩

/-- The deletions are no actions of the masters. -/
lemma ofMasters_deletionsOf (u : System) (a : CleanupManagerServer.Action) :
    (deletionsOf u a).flatMap ofMasters = [] := by
  cases a with
  | request connected =>
      rw [deletionsOf]
      split
      · rename_i q k hcontrol
        cases q with
        | deleteFirstPackets client mbId numPackets => cases client <;> rfl
        | _ => rfl
      · rfl
  | _ => rfl

/-- A run of the network alone. -/
lemma run_of_network {as : List Network.Action} (h : Run (Network.Steps boxes) s.network as n)
    (has : ∀ a ∈ as, ofMasters a = [a]) (hs : seenBy s.manager s.network = s.manager) :
    Run (step boxes srt) s (as.map .network) ⟨n, seenBy s.manager n⟩ := by
  induction h with
  | nil =>
      rw [hs]
      exact .nil
  | @snoc as n n' a _ hlast ih =>
      rw [List.map_append]
      have hfront := ih fun b hb => has b (List.mem_append_left _ hb)
      exact hfront.snoc ⟨has a (List.mem_append_right _ List.mem_cons_self), hlast, rfl⟩

/-- The deletions of a request are requests. -/
lemma ofRequests_deletionsOf (u : System) (a : CleanupManagerServer.Action) :
    (deletionsOf u a).flatMap ofRequests = deletionsOf u a := by
  cases a with
  | request connected =>
      rw [deletionsOf]
      split
      · rename_i q k hcontrol
        cases q with
        | deleteFirstPackets client mbId numPackets => cases client <;> rfl
        | _ => rfl
      · rfl
  | _ => rfl

/-- What is requested in a run and behind it. -/
lemma requested_append {bs : List CleanupManagerServer.Action} {v : System}
    (h : Run (Fires (CleanupManagerServer.step srt)) u bs v)
    (cs : List CleanupManagerServer.Action) :
    requested srt u (bs ++ cs) = requested srt u bs ++ requested srt v cs := by
  induction bs generalizing u with
  | nil =>
      obtain rfl := h.nil_inv
      rfl
  | cons b bs ih =>
      obtain ⟨m, hstep, hrest⟩ := h.cons_inv
      have hfires : CleanupManagerServer.step srt u b = some m := hstep
      rw [List.cons_append, requested, requested, hfires, Option.elim_some, Option.elim_some,
        ih hrest, List.append_assoc]

/-- The others request nothing. -/
lemma requested_of_others {bs : List CleanupManagerServer.Action}
    (hbs : bs.flatMap ofManager = []) : requested srt u bs = [] := by
  induction bs generalizing u with
  | nil => rfl
  | cons b bs ih =>
      rw [List.flatMap_cons, List.append_eq_nil_iff] at hbs
      obtain ⟨hb, hbs⟩ := hbs
      have hdeletions : deletionsOf u b = [] := by
        cases b with
        | request => cases hb
        | _ => rfl
      rw [requested, hdeletions, List.nil_append]
      cases CleanupManagerServer.step srt u b with
      | none => rfl
      | some v => exact ih hbs

/-- One event is followed by both, with the same deletions. -/
lemma refines_step {e : Event} (hs : Inv boxes s) (h : step boxes srt s e t) :
    ∃ as bs, Run (Network.Steps boxes) s.network as t.network ∧
      Run (Fires (CleanupManagerServer.step srt)) s.manager bs t.manager ∧
      as.flatMap ofMasters = e.masters ∧ bs.flatMap ofManager = e.managers ∧
      as.flatMap ofRequests = requested srt s.manager bs := by
  cases e with
  | network a =>
      obtain ⟨ha, hstep, hmanager⟩ := h
      obtain ⟨⟨bs, hrun, hbs⟩, -⟩ :=
        follows_network srt hs.agrees hs.network hs.records ha hstep
      have hrequests : ofRequests a = [] := by
        cases a with
        | deletePackets | deleteFirstPackets => cases ha
        | _ => rfl
      refine ⟨[a], bs, .single hstep, hmanager ▸ hrun, ?_, hbs, ?_⟩
      · rw [List.flatMap_singleton]
        exact ha
      · rw [List.flatMap_singleton, hrequests, requested_of_others hbs]
  | manager a =>
      obtain ⟨ha, hstep, hrun⟩ := h
      refine ⟨deletionsOf s.manager a, [a], hrun, .single hstep, ofMasters_deletionsOf .., ?_, ?_⟩
      · rw [List.flatMap_singleton]
        exact ha
      · rw [ofRequests_deletionsOf, requested, hstep, Option.elim_some, requested, List.append_nil]

/-- **Both refinements.**  In every run of the masters, the producers, the manager and the slaves,
in any interleaving of their requests, in which each step of the masters and the producers is
permitted (`Network.Permits`), and the manager executes one command at a time, with lists that fit
into the buffers: the masters and the producers do what they can do in the network, and the
manager and the slaves do what they can do in the world of the manager, where a master stores no
id again that it has in its list or that was removed from this; the deletions in the network are
exactly those that the manager requests, in their order; and both see the same loggers. -/
theorem refines_both {es : List Event} (h : Run (step boxes srt) new es s) :
    Agrees s.network s.manager ∧
      ∃ as bs, Run (Network.Steps boxes) .new as s.network ∧
        Run (Fires (CleanupManagerServer.step srt)) .new bs s.manager ∧
        as.flatMap ofMasters = es.flatMap Event.masters ∧
        bs.flatMap ofManager = es.flatMap Event.managers ∧
        as.flatMap ofRequests = requested srt .new bs := by
  have hinv {es : List Event} {s : Deployment} (h : Run (step boxes srt) new es s) :
      Inv boxes s := h.invariant (fun _ _ _ hs hst => inv_step hs hst) inv_new
  refine ⟨(hinv h).agrees, ?_⟩
  induction h with
  | nil => exact ⟨[], [], .nil, .nil, rfl, rfl, rfl⟩
  | @snoc es s t e h hlast ih =>
      obtain ⟨as, bs, hnetwork, hmanager, has, hbs, hrequests⟩ := ih
      obtain ⟨as', bs', hnetwork', hmanager', has', hbs', hrequests'⟩ :=
        refines_step (hinv h) hlast
      refine ⟨as ++ as', bs ++ bs', hnetwork.append hnetwork', hmanager.append hmanager', ?_, ?_,
        ?_⟩
      · simp [has, has']
      · simp [hbs, hbs']
      · rw [List.flatMap_append, hrequests, hrequests', requested_append hmanager]

/-- The deletions of an action of the manager are possible. -/
lemma exists_deletions (n : Network) (u : System) (a : CleanupManagerServer.Action) :
    ∃ n', Run (Network.Steps boxes) n (deletionsOf u a) n' := by
  cases a with
  | request connected =>
      rw [deletionsOf]
      split
      · rename_i q k hcontrol
        cases q with
        | deleteFirstPackets client mbId numPackets =>
            cases client with
            | detLoggerClient => exact ⟨_, .single ⟨trivial, rfl⟩⟩
            | slaveDetLoggerClient => exact ⟨n, .nil⟩
        | deletePackets ids => exact ⟨_, .single ⟨trivial, rfl⟩⟩
        | _ => exact ⟨n, .nil⟩
      · exact ⟨n, .nil⟩
  | _ => exact ⟨n, .nil⟩

/-- A run of the manager alone. -/
lemma run_of_manager {bs : List CleanupManagerServer.Action} {v : System}
    (h : Run (Fires (CleanupManagerServer.step srt)) u bs v) (hbs : ∀ b ∈ bs, ofManager b = [b]) :
    ∃ n', Run (step boxes srt) ⟨n, u⟩ (bs.map .manager) ⟨n', v⟩ := by
  induction h with
  | nil => exact ⟨n, .nil⟩
  | @snoc bs v v' b _ hlast ih =>
      obtain ⟨hbs, hb⟩ := List.forall_mem_append.mp hbs
      obtain ⟨m, hrun⟩ := ih hbs
      obtain ⟨n', hdeletions⟩ : ∃ n', Run (Network.Steps boxes) m (deletionsOf v b) n' :=
        exists_deletions m v b
      rw [List.map_append]
      exact ⟨n', hrun.snoc ⟨hb b List.mem_cons_self, hlast, hdeletions⟩⟩

/-- Two packets pass the middlebox `6`, the command to stop it comes, another packet is tagged, and
then the command goes on until the list of the middlebox is empty. -/
lemma exists_run_stopped : ∃ s, ∃ bs : List CleanupManagerServer.Action,
    Run (step Network.withTsaTag .stable) new
      ((([.enter 1 shortPacket, .enter 2 shortPacket, .arrive (1, 0) 6] ++
        [.record (1, 0), .log (1, 0), .forward (1, 0), .arrive (2, 0) 6] ++
        [.record (2, 0), .log (2, 0), .forward (2, 0)] : List Network.Action).map .network ++
        [.manager (.command (.stopMaster 6 10)), .network (.enter 3 shortPacket)]) ++
        bs.map .manager) s ∧
    s.manager.world.detLogger.HasList 6 [] := by
  obtain ⟨n, n', first, second, hpass, henter, hcut, hfree, -, hlength, hvs⟩ :=
    Network.exists_run_passed
  have hfits : 8 * (n'.detLogger.processed 6).length ≤ serverBufferSizeWithoutPrefix := by
    rw [hlength, serverBufferSizeWithoutPrefix]
    decide
  let slaveData : MbData := ⟨7, "10.0.0.7", 9999⟩
  have hslaveData : getSlaveMbData 6 = some slaveData := rfl
  have hbox : (Middlebox.plain 1 le_rfl).vlanLevelOffset = 1 := rfl
  obtain ⟨hs, hr⟩ := Network.records_of_run (hpass.append henter)
  set w := (seenBy .new n').world with hw
  have hslave : w.slaveDetLogger.HasList 7 ((((n'.visits 6).drop 0).take 0).flatMap Visit.ids) :=
    ⟨rfl, rfl⟩
  obtain ⟨runs, hruns, hquiescent⟩ : ∃ runs : List PacketRun,
      runs.map PacketRun.ids = ((n'.visits 6).drop 0).map Visit.ids ∧
        Quiescent w 6 slaveData.mbId runs 0 :=
    Network.quiescent_of_visited hs hr hcut hfree (fun v hv => (hvs v hv).1)
      (fun v hv => (hvs v hv).2) rfl rfl hslave rfl hfits
  have hprocess := Network.storesRuns_of_visited hs (fun v hv => hr.visited 6 v hv)
    (fun v hv => (hvs v hv).1) .stable hruns hbox 7 PALSManager.new
  obtain ⟨w', hround, hconverged⟩ := replayAndClear_run .stable hslaveData hquiescent hprocess
  have hnew : (10 : MbId) ≠ 0 := by decide
  obtain ⟨bs, hstop, hbs⟩ := run_stopMasterLoop hnew
    (stopMasterLoop_eq .stable hslaveData hquiescent hround hconverged le_rfl)
  -- the manager has the command while the third packet is tagged
  let busy : System :=
    ⟨(seenBy .new n).world, some (.stopMaster 6 10, Command.round (.stopMaster 6 10))⟩
  have hbefore : Run (step Network.withTsaTag .stable) new _ ⟨n, seenBy .new n⟩ :=
    run_of_network hpass (by simp [ofMasters]) rfl
  have hcommand : step Network.withTsaTag .stable ⟨n, seenBy .new n⟩
      (.manager (.command (.stopMaster 6 10))) ⟨n, busy⟩ := ⟨rfl, rfl, .nil⟩
  have hafter : Run (step Network.withTsaTag .stable) ⟨n, busy⟩ _ ⟨n', seenBy busy n'⟩ :=
    run_of_network henter (by simp [ofMasters]) rfl
  obtain ⟨m, hmanager⟩ : ∃ m, Run (step Network.withTsaTag .stable) ⟨n', _⟩ _ ⟨m, _⟩ :=
    run_of_manager hstop fun b hb => by
      have hround := hbs b hb
      rcases b with a | c | connected | _
      · cases a <;> first | rfl | cases hround
      · cases hround
      · rfl
      · rfl
  exact ⟨_, bs, (hbefore.append ((Run.single hcommand).append hafter)).append hmanager,
    hconverged.master⟩

/-- The deployment in which the middlebox `6` is stopped. -/
theorem refines_both_stopMaster : ∃ s, ∃ bs : List CleanupManagerServer.Action,
    Run (step Network.withTsaTag .stable) new
      ((([.enter 1 shortPacket, .enter 2 shortPacket, .arrive (1, 0) 6] ++
        [.record (1, 0), .log (1, 0), .forward (1, 0), .arrive (2, 0) 6] ++
        [.record (2, 0), .log (2, 0), .forward (2, 0)] : List Network.Action).map .network ++
        [.manager (.command (.stopMaster 6 10)), .network (.enter 3 shortPacket)]) ++
        bs.map .manager) s ∧
    s.network.detLogger.HasList 6 [] ∧
    ∃ as bs, Run (Network.Steps Network.withTsaTag) .new as s.network ∧
      Run (Fires (CleanupManagerServer.step .stable)) .new bs s.manager ∧
      as.flatMap ofRequests = requested .stable .new bs := by
  obtain ⟨s, bs, hrun, hlist⟩ := exists_run_stopped
  obtain ⟨hagrees, as, bs', hnetwork, hmanager, -, -, hrequests⟩ := refines_both hrun
  exact ⟨s, bs, hrun, hagrees.detLogger ▸ hlist, as, bs', hnetwork, hmanager, hrequests⟩

end Deployment

end FtThesis
