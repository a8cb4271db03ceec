/-
The determinant logger, called by its clients.

The elements of the middleboxes and the cleanup manager call the determinant logger through
`DetLoggerClient`, each on its own connection.

* `DetLoggerClient.serializeObject`, `DetLoggerServer.deserializeClientRequest`: the requests on
  the wire, with the arguments as the callers lay them out;
* `DetLoggerServer.respond`: what the server writes to the buffer of its answer;
* `service`, `travels`: every request is read as it was meant;
* `localCall`, `result`: a request without a network between, and what the client makes of an
  answer; `localCall_of_answers`: they are the same;
* `calls_exactly_once`: the calls of any number of clients are local calls, one after another, if
  the server executes them one after another.
-/
import FtThesis.Manager.IdLists
import FtThesis.Transport.Calls

namespace FtThesis

open Memory Transition

/-! ### The requests on the wire -/

/-- `bool`. -/
def boolCodec : Codec Bool where
  size := 1
  put b m p := Function.update m p (if b then 1 else 0)
  get m p := m p != 0
  put_frame b m p q h := Function.update_of_ne (by omega) _ _
  get_congr m m' p h := by rw [h p le_rfl (by omega)]
  get_put b m p := by cases b <;> simp

/-- The command of a request (`STORE_COMMAND_TYPE` and the next ones). -/
def DetRequest.command : DetRequest → ℕ
  | store _ => 0
  | getProcessed .. => 1
  | getPals .. => 2
  | deleteFirst .. => 3

lemma DetRequest.command_le (request : DetRequest) : request.command ≤ 9 := by
  cases request <;> simp [command]

/-- The `void*` of a request, by its type: a `PALSManager`, or the bytes of the arguments. -/
inductive DetObject
  | palsManager (pm : PALSManager)
  | bytes (obj : Mem)

namespace DetLoggerClient

/-- The id of a middlebox and one more argument behind it, copied from the bytes of the
arguments. -/
def serializeArguments {α : Type} (c : Codec α) (obj serialized : Mem) : Mem × ℕ :=
  let serialized := word16.put (word16.get obj 0) serialized 0
  (c.put (c.get obj 2) serialized 2, 2 + c.size)

/-- `serializePalsManagerObject`. -/
def serializePalsManagerObject (pm : PALSManager) (serialized : Mem) : Mem × ℕ :=
  (pm.serialize serialized, pm.getSerializationLength)

/-- `serializeGetProcessedPackIdsByMBId`. -/
def serializeGetProcessedPackIdsByMBId : Mem → Mem → Mem × ℕ := serializeArguments boolCodec

/-- `serializeGetPalsByMBIdAndPackId`. -/
def serializeGetPalsByMBIdAndPackId : Mem → Mem → Mem × ℕ := serializeArguments word64

/-- `serializeDeleteFirstPackets`. -/
def serializeDeleteFirstPackets : Mem → Mem → Mem × ℕ := serializeArguments word32

/-- `serializeObject`; an object that is not of the type of its command does not occur. -/
def serializeObject (command : ℕ) (obj : DetObject) (serialized : Mem) (len : ℕ) : Mem × ℕ :=
  match command, obj with
  | 0, .palsManager pm => serializePalsManagerObject pm serialized
  | 1, .bytes obj => serializeGetProcessedPackIdsByMBId obj serialized
  | 2, .bytes obj => serializeGetPalsByMBIdAndPackId obj serialized
  | 3, .bytes obj => serializeDeleteFirstPackets obj serialized
  | _, _ => (serialized, len)

/-- The arguments of a request in a new array: the id of a middlebox and one more. -/
def prepareArguments {α : Type} (c : Codec α) (mbId : MbId) (x : α) (input : Mem) : Mem :=
  c.put x (word16.put mbId input 0) 2

/-- `CleanupManagerServer::prepareGetProcessedPackets`. -/
def prepareGetProcessedPackets : MbId → Bool → Mem → Mem := prepareArguments boolCodec

/-- `prepareGetPalsTest`. -/
def prepareGetPalsTest : MbId → PacketId → Mem → Mem := prepareArguments word64

/-- The arguments in `CleanupManagerServer::deleteFirstPacketsRequest`. -/
def prepareDeleteFirstPackets : MbId → UInt32 → Mem → Mem := prepareArguments word32

/-- What the callers hand to `prepareToSend`, with the contents of the new array before. -/
def object (input : Mem) : DetRequest → DetObject
  | .store pm => .palsManager pm
  | .getProcessed mbId allVersions => .bytes (prepareGetProcessedPackets mbId allVersions input)
  | .getPals mbId packId => .bytes (prepareGetPalsTest mbId packId input)
  | .deleteFirst mbId n => .bytes (prepareDeleteFirstPackets mbId n input)

/-- The arguments that were laid out are those that are read. -/
lemma serializeArguments_reads {α : Type} (c : Codec α) (mbId : MbId) (x : α) (input : Mem)
    {m m' : Mem}
    (h : AgreeOn (serializeArguments c (prepareArguments c mbId x input) m).1 m' 0 (2 + c.size)) :
    word16.get m' 0 = mbId ∧ c.get m' 2 = x := by
  have hinput : (word16.prod c).get (prepareArguments c mbId x input) 0 = (mbId, x) :=
    (word16.prod c).get_put (mbId, x) input 0
  obtain ⟨hmb, hx⟩ := Prod.mk.inj hinput
  have hput : (serializeArguments c (prepareArguments c mbId x input) m).1
      = (word16.prod c).put (mbId, x) m 0 := by
    rw [serializeArguments]
    simp only [Nat.zero_add] at hx
    rw [hmb, show c.get (prepareArguments c mbId x input) 2 = x from hx]
    rfl
  rw [hput] at h
  have hget : (word16.prod c).get m' 0 = (mbId, x) := by
    rw [← (word16.prod c).get_congr _ m' 0 h]
    exact (word16.prod c).get_put (mbId, x) m 0
  exact Prod.mk.inj hget

end DetLoggerClient

namespace DetLoggerServer

/-- `deserializeClientRequest`, and the arguments that the functions for the requests read off
their message; `none` for an unknown command, and where the lists of a manager are longer than
there is room. -/
def deserializeClientRequest (command : ℕ) (msg : Mem) : Option DetRequest :=
  match command with
  | 0 => (PALSManager.deserialize msg).map .store
  | 1 => some (.getProcessed (word16.get msg 0) (boolCodec.get msg 2))
  | 2 => some (.getPals (word16.get msg 0) (word64.get msg 2))
  | 3 => some (.deleteFirst (word16.get msg 0) (word32.get msg 2))
  | _ => none

/-- `processRequest` with the buffer of the answer: the next state, the status, and the buffer
with the length of the return value. -/
def respond (s : DetLoggerServer) (request : DetRequest) (retVal : Mem) :
    Option (DetLoggerServer × Bool × Mem × ℕ) :=
  match request with
  | .store pm => some (s.processStoreRequest pm, true, retVal, 0)
  | .getProcessed mbId allVersions =>
      (s.processGetProcessedPacketsRequest mbId allVersions).map fun ids =>
        (s, true, word64.putList ids retVal 0, ids.length * 8)
  | .getPals mbId packId =>
      (s.processGetPalsRequest mbId packId retVal).map fun reply => (s, reply)
  | .deleteFirst mbId n => some (s.processDeleteFirstPacketsRequest mbId n, true, retVal, 0)

/-- The determinant logger and its client. -/
def service : Service DetLoggerServer DetRequest where
  command := DetRequest.command
  serializeObject request m :=
    DetLoggerClient.serializeObject request.command
      (DetLoggerClient.object (fun _ => 0) request) m 0
  deserializeClientRequest command msg _ := deserializeClientRequest command msg
  processRequest s request retVal t succeed reply len :=
    s.respond request retVal = some (t, succeed, reply, len)

/-- A request with two arguments is read as it was meant. -/
lemma travels_of_arguments {α : Type} (c : Codec α) (hsize : c.size ≤ 8) {request : DetRequest}
    {mbId : MbId} {x : α}
    (hserialize : ∀ m, service.serializeObject request m = DetLoggerClient.serializeArguments c
      (DetLoggerClient.prepareArguments c mbId x fun _ => 0) m)
    (hread : ∀ msg len, word16.get msg 0 = mbId → c.get msg 2 = x →
      service.deserializeClientRequest request.command msg len = some request) :
    service.Travels request := by
  have hlen : ∀ m, (service.serializeObject request m).2 = 2 + c.size := fun m => by
    rw [hserialize]
    rfl
  refine ⟨request.command_le, fun m => ?_, fun m => ?_, fun m m' h => ?_⟩
  · rw [hlen]
    omega
  · rw [hlen, serverBufferSizeWithoutPrefix]
    omega
  · rw [hserialize] at h ⊢
    obtain ⟨hmb, hx⟩ := DetLoggerClient.serializeArguments_reads c _ _ _ h
    exact hread m' _ hmb hx

/-- Every request is read as it was meant. -/
lemma travels (request : DetRequest) : service.Travels request := by
  cases request with
  | store pm =>
      have hlen : ∀ m, (service.serializeObject (.store pm) m).2
          = 14 + pm.gpalList.length * 52 + pm.spalList.length * 8 := fun _ =>
        pm.getSerializationLength_eq
      have hg : pm.gpalList.length ≤ 10 := pm.gpalList_le
      have hs : pm.spalList.length ≤ 10 := pm.spalList_le
      refine ⟨(DetRequest.store pm).command_le, fun m => ?_, fun m => ?_, fun m m' h => ?_⟩
      · rw [hlen]
        omega
      · rw [hlen, serverBufferSizeWithoutPrefix]
        omega
      · have hread : PALSManager.deserialize m' = some pm :=
          PALSManager.deserialize_of_agreeOn pm m m' h
        change (PALSManager.deserialize m').map DetRequest.store = _
        rw [hread]
        rfl
  | getProcessed mbId allVersions =>
      refine travels_of_arguments boolCodec (by decide) (fun _ => rfl) fun msg len hmb hall => ?_
      rw [← hmb, ← hall]
      rfl
  | getPals mbId packId =>
      refine travels_of_arguments word64 (by decide) (fun _ => rfl) fun msg len hmb hid => ?_
      rw [← hmb, ← hid]
      rfl
  | deleteFirst mbId n =>
      refine travels_of_arguments word32 (by decide) (fun _ => rfl) fun msg len hmb hn => ?_
      rw [← hmb, ← hn]
      rfl

/-! ### Local calls -/

/-- What a call comes to for its caller: it returns false, or true with nothing, or with the ids
of a list or the determinants of a packet. -/
inductive CallResult
  | failed
  | done
  | ids (packetIds : List PacketId)
  | pals (pm : PALSManager)
deriving DecidableEq

/-- A request without a network between, undefined where the server writes outside of a fixed
list or of a buffer. -/
def localCall (s : DetLoggerServer) : DetRequest → Option (DetLoggerServer × CallResult)
  | .store pm => some (s.processStoreRequest pm, .done)
  | .getProcessed mbId allVersions =>
      (s.processGetProcessedPacketsRequest mbId allVersions).map fun ids => (s, .ids ids)
  | .getPals mbId packId =>
      match s.getPacketData mbId packId with
      | none => some (s, .failed)
      | some packetData =>
          (convertPacketDataToPM (.new mbId packId) packetData).map fun pm => (s, .pals pm)
  | .deleteFirst mbId n => some (s.processDeleteFirstPacketsRequest mbId n, .done)

/-- `DetLoggerClient::handleReturnValue`, with what the call comes to. -/
def result : DetRequest → Client.Outcome → CallResult
  | .getProcessed .., .returnedTrue none => .ids []
  | .getProcessed .., .returnedTrue (some (_, retVal)) =>
      .ids (DetLoggerClient.handleGetPacketIdsResponse retVal)
  | .getPals .., .returnedTrue (some (_, retVal)) =>
      -- `PALSManager::deserialize`
      ((PALSManager.deserialize (memcpy (fun _ => 0) 0 retVal)).map .pals).getD .failed
  | _, .returnedTrue _ => .done
  | _, _ => .failed

/-- The ids of a list, as the client reads them. -/
lemma result_getProcessed (mbId : MbId) (allVersions : Bool) (ids : List PacketId) (retVal : Mem)
    {a : Client.Answer} (hsucceed : a.succeed = true)
    (hretVal : a.retVal = read (word64.putList ids retVal 0) 0 (ids.length * 8)) :
    result (.getProcessed mbId allVersions) a.outcome = .ids ids := by
  have hread := DetLoggerClient.handleGetPacketIdsResponse_read ids retVal
  rw [← hretVal] at hread
  rw [Client.Answer.outcome, if_pos hsucceed, Client.Answer.handed]
  split_ifs with hnil
  · rw [hnil] at hread
    rw [result, ← hread]
    rfl
  · rw [result, hread]

/-- The determinants of a packet, as the client reads them. -/
lemma result_getPals (mbId : MbId) (packId : PacketId) (pm : PALSManager) (retVal : Mem)
    {a : Client.Answer} (hsucceed : a.succeed = true)
    (hretVal : a.retVal = read (pm.serialize retVal) 0 pm.getSerializationLength) :
    result (.getPals mbId packId) a.outcome = .pals pm := by
  have hread : PALSManager.deserialize (memcpy (fun _ => 0) 0 a.retVal) = some pm := by
    rw [hretVal]
    exact PALSManager.deserialize_of_agreeOn pm retVal _ (agreeOn_memcpy_read _ _ _)
  have hne : a.retVal ≠ [] := by
    rw [← List.length_pos_iff, hretVal, length_read, PALSManager.getSerializationLength_eq]
    omega
  rw [Client.Answer.outcome, if_pos hsucceed, Client.Answer.handed, if_neg hne, result, hread]
  rfl

/-- A call is a local call. -/
lemma localCall_of_answers {s t : DetLoggerServer} {request : DetRequest} {a : Client.Answer}
    (h : service.Answers s request a t) :
    s.localCall request = some (t, result request a.outcome) := by
  obtain ⟨retVal, reply, hprocess, hretVal⟩ := h
  change s.respond request retVal = _ at hprocess
  cases request with
  | store pm =>
      obtain ⟨rfl, hsucceed, -⟩ : _ = t ∧ true = a.succeed ∧ _ := by simpa [respond] using hprocess
      rw [localCall, Client.Answer.outcome, if_pos hsucceed.symm]
      rfl
  | getProcessed mbId allVersions =>
      obtain ⟨ids, hids, heq⟩ := Option.map_eq_some_iff.mp hprocess
      obtain ⟨rfl, hsucceed, rfl, hlen⟩ : s = t ∧ true = a.succeed ∧
        word64.putList ids retVal 0 = reply ∧ ids.length * 8 = a.retVal.length := by
          simpa using heq
      rw [localCall, hids, result_getProcessed _ _ ids retVal hsucceed.symm (by
        rw [← hretVal, hlen])]
      rfl
  | getPals mbId packId =>
      obtain ⟨⟨succeed, buffer, len⟩, hpals, heq⟩ := Option.map_eq_some_iff.mp hprocess
      obtain ⟨rfl, rfl, rfl, rfl⟩ : s = t ∧ succeed = a.succeed ∧ buffer = reply ∧
        len = a.retVal.length := by simpa using heq
      rw [processGetPalsRequest] at hpals
      rw [localCall]
      cases hrecord : s.getPacketData mbId packId with
      | none =>
          simp only [hrecord, Option.some.injEq, Prod.mk.injEq] at hpals
          simp [Client.Answer.outcome, ← hpals.1, result]
      | some packetData =>
          simp only [hrecord] at hpals
          cases hpm : convertPacketDataToPM (.new mbId packId) packetData with
          | none => simp [hpm] at hpals
          | some pm =>
              obtain ⟨hsucceed, rfl, hlen⟩ : true = a.succeed ∧ pm.serialize retVal = buffer ∧
                pm.getSerializationLength = a.retVal.length := by simpa [hpm] using hpals
              simp only [hpm, Option.map_some]
              rw [result_getPals mbId packId pm retVal hsucceed.symm (by rw [← hretVal, hlen])]
  | deleteFirst mbId n =>
      obtain ⟨rfl, hsucceed, -⟩ : _ = t ∧ true = a.succeed ∧ _ := by simpa [respond] using hprocess
      rw [localCall, Client.Answer.outcome, if_pos hsucceed.symm]
      rfl

/-! ### Runs -/

variable {ι : Type*} [DecidableEq ι]

/-- **The determinant logger is called as if it were local.**  For any number of clients on
connections that stay open, in a run in which each request is there as a whole when the server
reads it, which executes no other request then (also none of a client on another host, for which
it has another thread), and each answer fits into its buffer and is there when its client waits
for it: the executed requests are local calls, one after the other, from the start of the server
to its state; on each connection they are the first ones of the calls that its client has made,
all of which but the last one have returned; and what these have come to is what the local calls
come to. -/
theorem calls_exactly_once
    {as : List (CallAction DetRequest ι × Option (ι × DetRequest × Client.Answer))}
    {w : Calls DetLoggerServer DetRequest ι}
    (h : Run (When (fun w a => Calls.InTime service w a.1) (Calls.Step service))
      (Calls.start new) as w) :
    Run (fun s (e : ι × DetRequest × CallResult) t => s.localCall e.2.1 = some (t, e.2.2)) new
        (Calls.results result as) w.server ∧
      ∀ c, (Calls.executed c (Calls.results result as)).map Prod.fst <+: w.called c ∧
        (w.called c).length ≤ (w.returned c).length + 1 ∧
        List.zipWith result (w.called c) (w.returned c)
          <+: (Calls.executed c (Calls.results result as)).map Prod.snd :=
  Calls.results_exactly_once result (fun s request res t => s.localCall request = some (t, res))
    (fun _ _ _ _ => localCall_of_answers) h

/-- One client stores the determinants of a packet, and another one asks for the list. -/
theorem calls_exactly_once_two :
    ∃ (w : Calls DetLoggerServer DetRequest Bool)
      (as : List (CallAction DetRequest Bool × Option (Bool × DetRequest × Client.Answer))),
      Calls.results result as
        = [(false, .store (.new 1 33), .done), (true, .getProcessed 1 true, .ids [33])] ∧
      Run (fun s (e : Bool × DetRequest × CallResult) t => s.localCall e.2.1 = some (t, e.2.2)) new
        (Calls.results result as) w.server := by
  have hstore : service.Answers new (.store (.new 1 33)) ⟨true, [], by decide⟩
      (new.processStoreRequest (.new 1 33)) := ⟨fun _ => 0, fun _ => 0, rfl, rfl⟩
  let w₀ : Calls DetLoggerServer DetRequest Bool := Calls.start new
  obtain ⟨as, has, hfirst⟩ := Calls.exists_call w₀ false rfl ⟨rfl, rfl, rfl⟩
    (fun ⟨_, h⟩ => h rfl) (travels _) hstore
  let w₁ : Calls DetLoggerServer DetRequest Bool :=
    { w₀ with
      server := new.processStoreRequest (.new 1 33)
      called := Function.update w₀.called false [.store (.new 1 33)]
      returned := Function.update w₀.returned false [.returnedTrue none] }
  have hlist : service.Answers w₁.server (.getProcessed 1 true)
      ⟨true, read (word64.putList [33] (fun _ => 0) 0) 0 8, by decide⟩ w₁.server :=
    ⟨fun _ => 0, word64.putList [33] (fun _ => 0) 0, rfl, rfl⟩
  obtain ⟨bs, hbs, hsecond⟩ := Calls.exists_call w₁ true rfl ⟨rfl, rfl, rfl⟩
    (fun ⟨_, h⟩ => h rfl) (travels _) hlist
  refine ⟨_, as ++ bs, ?_, (calls_exactly_once (hfirst.append hsecond)).1⟩
  simp only [Calls.results, events, List.filterMap_append] at has hbs ⊢
  rw [has, hbs]
  decide

end DetLoggerServer

end FtThesis
