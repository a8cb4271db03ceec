/-
Calls of clients, and what the server makes of them.

A client sends a request and waits for its answer, for a second at most; the server reads what
comes on a connection, executes it, and answers.  All of this happens on several connections.  The
server has a thread for each host and no lock around the execution of a request, so requests of
clients on different hosts can overlap.

* `Service`: what a server class adds to the common server, and its client class to the common
  client; `Service.Travels`: the requests that the server reads as they were meant;
* `Service.Answers`: a request, executed by the server itself;
* `Calls`, `Step`: the server and the connections, and what can happen; a request is received at
  one step and answered at a later one, and once two requests have overlapped, nothing is said of
  the server any more;
* `Undisturbed`: a request is there as a whole when the server reads it, which does so while it
  executes no other one, and a call starts on a connection with nothing on its way;
* `executed_once`: then each call is executed at most once, in order, and what it returns true
  with is the answer that the server gave to it;
* `InTime`, `executed_exactly_once`: if every answer comes in time, each call is executed exactly
  once, and comes to what the server made of it.
-/
import FtThesis.Library.Linearization
import FtThesis.Transport.Framing
import FtThesis.Transport.Sending

namespace FtThesis

open Memory Socket Transition

/-! ### Requests -/

/-- The functions of a server class and its client class: the command of a request and how the
client lays it out, the request that the server reads in a payload (`none` if it reads none), and
what it makes of it, with the contents of the new buffer for the return value: the next state,
the status, and the return value with its length. -/
structure Service (σ ρ : Type*) where
  command : ρ → ℕ
  serializeObject : ρ → Mem → Mem × ℕ
  deserializeClientRequest : ℕ → Mem → ℕ → Option ρ
  processRequest : σ → ρ → Mem → σ → Bool → Mem → ℕ → Prop

variable {σ ρ ι : Type*}

namespace Service

/-- A request that fits into the buffers and that the server reads as it was meant, whatever
stood in the buffers of the client (`m`) and of the server (`m'`). -/
structure Travels (S : Service σ ρ) (r : ρ) : Prop where
  command_le : S.command r ≤ 9
  pos : ∀ m, 0 < (S.serializeObject r m).2
  fits : ∀ m, (S.serializeObject r m).2 ≤ serverBufferSizeWithoutPrefix
  reads : ∀ m m', AgreeOn (S.serializeObject r m).1 m' 0 (S.serializeObject r m).2 →
    S.deserializeClientRequest (S.command r) m' (S.serializeObject r m).2 = some r

/-- A request, executed by the server in the state `s`, with the answer `a`. -/
def Answers (S : Service σ ρ) (s : σ) (r : ρ) (a : Client.Answer) (t : σ) : Prop :=
  ∃ retVal reply, S.processRequest s r retVal t a.succeed reply a.retVal.length ∧
    read reply 0 a.retVal.length = a.retVal

/-- The bytes of a message are read as the request `r`. -/
def ReadsAs (S : Service σ ρ) (q : Request) (r : ρ) : Prop :=
  ∀ msg, S.deserializeClientRequest q.command (fun i => memcpy msg 0 q.bytes (8 + i))
    q.payload.length = some r

/-- What a client sends for a request that travels. -/
lemma Travels.sent {S : Service σ ρ} {r : ρ} (hr : S.Travels r) (serialized : Mem) :
    ∃ q, S.ReadsAs q r ∧ q.bytes =
      Client.sendMsg (Client.prepareToSend (S.serializeObject r) (S.command r) serialized).1
        (Client.prepareToSend (S.serializeObject r) (S.command r) serialized).2 := by
  set m : Mem := fun i => serialized (8 + i)
  let q : Request :=
    { command := S.command r
      payload := read (S.serializeObject r m).1 0 (S.serializeObject r m).2
      command_le := hr.command_le
      payload_pos := by simpa using hr.pos m
      payload_le := by simpa using hr.fits m }
  have hlen : q.payload.length = (S.serializeObject r m).2 := length_read _ _ _
  refine ⟨q, fun msg => ?_, (Client.sendMsg_prepareToSend _ hr.command_le _ rfl (hr.fits m)).symm⟩
  have hread : read (memcpy msg 0 q.bytes) 8 q.payload.length
      = read (S.serializeObject r m).1 0 (S.serializeObject r m).2 :=
    read_payload q.command_le q.payload_lt msg
  rw [hlen] at hread ⊢
  refine hr.reads m _ fun i _ hi => ?_
  have hlt : i < (S.serializeObject r m).2 := by omega
  have hbyte := congrArg (·[i]?) hread
  simpa [Memory.read, hlt] using hbyte.symm

end Service

namespace Client

/-- What a call comes to whose answer is read. -/
def Answer.outcome (a : Answer) : Outcome :=
  if a.succeed then .returnedTrue a.handed else .returnedFalse

/-- An answer that comes in time is read to its end, and is what the call comes to. -/
lemma sendMsgAndWait_of_inTime {ev : List Event} {a : Answer} (hev : Delivers ev)
    (hquiet : waits ev = []) (hstream : stream ev = a.bytes) (retVal : Mem) :
    (sendMsgAndWait retVal ev).1 = a.outcome ∧ stream (sendMsgAndWait retVal ev).2 = [] := by
  obtain ⟨ev', hempty, hread⟩ := readCommonServerResponse_of_quiet hev hquiet
    (hstream.trans (List.append_nil _).symm) retVal
  refine ⟨?_, by simpa [sendMsgAndWait, hread] using hempty⟩
  cases hsucceed : a.succeed with
  | true =>
      rw [sendMsgAndWait_of_quiet hev hquiet hstream hsucceed, Answer.outcome, if_pos hsucceed]
  | false => simp [sendMsgAndWait, hread, Answer.status, Answer.outcome, hsucceed]

end Client

/-! ### The server and its clients -/

/-- A server and its clients: the state of the server, and for each connection the request from
it that the server is executing, the bytes on their way to the server, those on their way back,
the requests that were called, and what the calls came to; and whether the server has ever begun
to execute a request while it was executing another one. -/
structure Calls (σ ρ ι : Type*) where
  server : σ
  executing : ι → Option ρ
  toServer : ι → List UInt8
  toClient : ι → List UInt8
  called : ι → List ρ
  returned : ι → List Client.Outcome
  overlapped : Prop

/-- What happens on a connection: a call of `sendMsg`, with the contents of the buffer before;
`handleClientRequest` up to the request that is read, with what its reads come to and the contents
of its buffer; the rest of it, with the contents of the buffer for the answer; and the rest of
`sendMsgAndWait`, with what its reads come to and the contents of its buffer. -/
inductive CallAction (ρ ι : Type*)
  | send (c : ι) (r : ρ) (serialized : Mem)
  | receive (c : ι) (ev : List Event) (msg : Mem)
  | respond (c : ι) (retVal : Mem)
  | wait (c : ι) (ev : List Event) (retVal : Mem)

namespace Calls

/-- No client has called. -/
def start (s : σ) : Calls σ ρ ι :=
  ⟨s, fun _ => none, fun _ => [], fun _ => [], fun _ => [], fun _ => [], False⟩

/-- The server is executing a request. -/
def Busy (w : Calls σ ρ ι) : Prop := ∃ c, w.executing c ≠ none

/-- The bytes of a read loop are taken off what is on its way. -/
def taken (bytes : List UInt8) (ev ev' : List Event) : List UInt8 :=
  bytes.drop ((stream ev).length - (stream ev').length)

/-- One step.  A client calls when its last call has returned; both sides read a part of what is
on its way, and the server does not end the connection.  A message that is not read as a request
is not executed here.  A request that overlaps no other one is executed by itself; after two have
overlapped, the server may be in any state and give any answer. -/
inductive Step [DecidableEq ι] (S : Service σ ρ) : Calls σ ρ ι →
    CallAction ρ ι × Option (ι × ρ × Client.Answer) → Calls σ ρ ι → Prop
  | send {w : Calls σ ρ ι} {c : ι} {r : ρ} {serialized : Mem}
      (hfree : (w.returned c).length = (w.called c).length) :
      Step S w (.send c r serialized, none)
        { w with
          toServer := Function.update w.toServer c (w.toServer c ++
            Client.sendMsg (Client.prepareToSend (S.serializeObject r) (S.command r) serialized).1
              (Client.prepareToSend (S.serializeObject r) (S.command r) serialized).2)
          called := Function.update w.called c (w.called c ++ [r]) }
  | receive {w : Calls σ ρ ι} {c : ι} {ev : List Event} {msg : Mem} {r : ρ} {msgLen command : ℕ}
      (hidle : w.executing c = none) (harrives : stream ev <+: w.toServer c)
      (hkept : (AsyncServer.readCommonClientRequest ev msg).removed = false)
      (hlen : (AsyncServer.readCommonClientRequest ev msg).msgLen = some msgLen)
      (hcommand : (AsyncServer.readCommonClientRequest ev msg).command = some command)
      (hobj : S.deserializeClientRequest command
        (fun i => (AsyncServer.readCommonClientRequest ev msg).msg (8 + i)) msgLen = some r) :
      Step S w (.receive c ev msg, none)
        { w with
          executing := Function.update w.executing c (some r)
          toServer := Function.update w.toServer c
            (taken (w.toServer c) ev (AsyncServer.readCommonClientRequest ev msg).events)
          overlapped := w.overlapped ∨ w.Busy }
  | respond {w : Calls σ ρ ι} {c : ι} {retVal reply : Mem} {r : ρ} {a : Client.Answer} {t : σ}
      (hexecuting : w.executing c = some r)
      (hprocess : w.overlapped ∨
        S.processRequest w.server r retVal t a.succeed reply a.retVal.length)
      (hretVal : read reply 0 a.retVal.length = a.retVal) :
      Step S w (.respond c retVal, some (c, r, a))
        { w with
          server := t
          executing := Function.update w.executing c none
          toClient := Function.update w.toClient c (w.toClient c ++
            AsyncServer.writeResponseToClient a.succeed reply a.retVal.length) }
  | wait {w : Calls σ ρ ι} {c : ι} {ev : List Event} {retVal : Mem}
      (hwaits : (w.returned c).length < (w.called c).length) (heof : .eof ∉ ev)
      (harrives : stream ev <+: w.toClient c) :
      Step S w (.wait c ev retVal, none)
        { w with
          toClient := Function.update w.toClient c
            (taken (w.toClient c) ev (Client.sendMsgAndWait retVal ev).2)
          returned := Function.update w.returned c
            (w.returned c ++ [(Client.sendMsgAndWait retVal ev).1]) }

/-- The server reads a request while it executes no other one, when all of it is there, without a
read in between that finds no data. -/
def ReadAlone (w : Calls σ ρ ι) (c : ι) (ev : List Event) : Prop :=
  ¬ w.Busy ∧ Delivers ev ∧ stream ev = w.toServer c ∧ w.toServer c ≠ [] ∧
    ∀ p ∈ waits ev, (stream ev).length ≤ p

/-- Nothing of an earlier call is on its way, or is being executed. -/
def Quiet (w : Calls σ ρ ι) (c : ι) : Prop :=
  w.toServer c = [] ∧ w.executing c = none ∧ w.toClient c = []

/-- A call starts with nothing on its way, of a request that travels; and the server reads a
request when all of it is there, while it executes no other one. -/
def Undisturbed (S : Service σ ρ) (w : Calls σ ρ ι) : CallAction ρ ι → Prop
  | .send c r _ => w.Quiet c ∧ S.Travels r
  | .receive c ev _ => w.ReadAlone c ev
  | .respond .. | .wait .. => True

/-- What was executed on a connection. -/
def executed {α : Type*} [DecidableEq ι] (c : ι) (es : List (ι × α)) : List α :=
  (es.filter fun e => e.1 = c).map Prod.snd

lemma executed_append {α : Type*} [DecidableEq ι] (c : ι) (es es' : List (ι × α)) :
    executed c (es ++ es') = executed c es ++ executed c es' := by
  simp [executed]

lemma executed_map {α β : Type*} [DecidableEq ι] (c : ι) (f : α → β) (es : List (ι × α)) :
    executed c (es.map fun e => (e.1, f e.2)) = (executed c es).map f := by
  simp [executed, List.filter_map, Function.comp_def]

/-! ### One connection -/

/-- What is known of a connection on which the requests of `done` were executed: the last call
may still be on its way to the server, be executed there, or wait for its answer. -/
structure Served (S : Service σ ρ) (w : Calls σ ρ ι) (c : ι) (done : List (ρ × Client.Answer)) :
    Prop where
  returned_le : (w.returned c).length ≤ (w.called c).length
  called_le : (w.called c).length ≤ (w.returned c).length + 1
  requests : (w.toServer c = [] ∧ w.executing c = none ∧ w.called c = done.map Prod.fst) ∨
    (w.toClient c = [] ∧ ∃ r, w.called c = done.map Prod.fst ++ [r] ∧
      ((w.executing c = none ∧ ∃ q, S.ReadsAs q r ∧ w.toServer c = q.bytes) ∨
        (w.executing c = some r ∧ w.toServer c = [])))
  answer : w.toServer c = [] → w.executing c = none →
    (w.returned c).length < (w.called c).length →
    ∃ r a, done[(w.returned c).length]? = some (r, a) ∧ w.toClient c = a.bytes
  delivered : ∀ (i : ℕ) handed, (w.returned c)[i]? = some (.returnedTrue handed) →
    ∃ r a, done[i]? = some (r, a) ∧ a.succeed = true ∧ handed = a.handed

section

variable {S : Service σ ρ} {w t : Calls σ ρ ι} {c c' : ι} {done : List (ρ × Client.Answer)}
  {ev : List Event} {msg : Mem}

lemma request_bytes_ne (q : Request) : q.bytes ≠ [] := by
  rw [← List.length_pos_iff, q.length_bytes]
  omega

/-- Nothing is known that is not about the connection. -/
lemma Served.congr (hw : Served S w c done) (hserver : t.toServer c = w.toServer c)
    (hexecuting : t.executing c = w.executing c) (hclient : t.toClient c = w.toClient c)
    (hcalled : t.called c = w.called c) (hreturned : t.returned c = w.returned c) :
    Served S t c done := by
  obtain ⟨h₁, h₂, h₃, h₄, h₅⟩ := hw
  refine ⟨?_, ?_, ?_, ?_, ?_⟩
  · rwa [hreturned, hcalled]
  · rwa [hreturned, hcalled]
  · rwa [hserver, hexecuting, hclient, hcalled]
  · rwa [hserver, hexecuting, hclient, hreturned, hcalled]
  · rwa [hreturned]

/-- Where nothing is on its way, the server has executed all calls. -/
lemma Served.called_of_quiet (hw : Served S w c done) (hserver : w.toServer c = [])
    (hexecuting : w.executing c = none) : w.called c = done.map Prod.fst := by
  rcases hw.requests with ⟨-, -, h⟩ | ⟨-, r, -, ⟨-, q, -, hq⟩ | ⟨hr, -⟩⟩
  · exact h
  · exact absurd (hq.symm.trans hserver) (request_bytes_ne q)
  · exact absurd (hr.symm.trans hexecuting) (Option.some_ne_none r)

/-- A new call. -/
lemma Served.send (hw : Served S w c done) {r : ρ} {q : Request} (hq : S.ReadsAs q r)
    (hfree : (w.returned c).length = (w.called c).length) (hquiet : w.Quiet c)
    (htserver : t.toServer c = q.bytes) (htexecuting : t.executing c = w.executing c)
    (htclient : t.toClient c = w.toClient c) (htcalled : t.called c = w.called c ++ [r])
    (htreturned : t.returned c = w.returned c) : Served S t c done := by
  obtain ⟨hserver, hexecuting, hclient⟩ := hquiet
  have hcalled := hw.called_of_quiet hserver hexecuting
  refine ⟨?_, ?_, ?_, fun h => ?_, ?_⟩
  · rw [htreturned, htcalled, List.length_append, hfree]
    omega
  · rw [htreturned, htcalled, List.length_append, hfree]
    rfl
  · exact .inr ⟨htclient.trans hclient, r, by rw [htcalled, hcalled],
      .inl ⟨htexecuting.trans hexecuting, q, hq, htserver⟩⟩
  · exact absurd (htserver.symm.trans h) (request_bytes_ne q)
  · rw [htreturned]
    exact hw.delivered

/-- The request of a connection, read when all of it is there. -/
lemma Served.read (hw : Served S w c done) (halone : w.ReadAlone c ev) (msg : Mem) :
    ∃ r q, S.ReadsAs q r ∧ w.called c = done.map Prod.fst ++ [r] ∧ w.toClient c = [] ∧
      ∃ ev', stream ev' = [] ∧ AsyncServer.readCommonClientRequest ev msg
        = ⟨some q.payload.length, some q.command, memcpy msg 0 q.bytes, false, ev'⟩ := by
  obtain ⟨-, hev, hstream, hne, hquiet⟩ := halone
  rcases hw.requests with ⟨h, -⟩ | ⟨hclient, r, hcalled, ⟨-, q, hq, hbytes⟩ | ⟨-, h⟩⟩
  · exact absurd h hne
  · have hwhole : stream ev = q.bytes ++ [] := by rw [hstream, hbytes, List.append_nil]
    have hquiet' : ∀ p ∈ waits ev, q.bytes.length ≤ p := fun p hp => by
      rw [← hbytes, ← hstream]
      exact hquiet p hp
    exact ⟨r, q, hq, hcalled, hclient, _,
      (advance_two_spec hev q.length_bytes hwhole hquiet').1,
      AsyncServer.readCommonClientRequest_of_quiet hev hwhole hquiet' msg⟩
  · exact absurd h hne

/-- The request that was called last begins to be executed. -/
lemma Served.receive (hw : Served S w c done) {r : ρ}
    (hcalled : w.called c = done.map Prod.fst ++ [r]) (hclient : w.toClient c = [])
    (htserver : t.toServer c = []) (htexecuting : t.executing c = some r)
    (htclient : t.toClient c = w.toClient c) (htcalled : t.called c = w.called c)
    (htreturned : t.returned c = w.returned c) : Served S t c done := by
  refine ⟨?_, ?_, .inr ⟨htclient.trans hclient, r, htcalled.trans hcalled,
    .inr ⟨htexecuting, htserver⟩⟩, fun _ h => ?_, ?_⟩
  · rw [htreturned, htcalled]
    exact hw.returned_le
  · rw [htreturned, htcalled]
    exact hw.called_le
  · exact absurd (htexecuting.symm.trans h) (Option.some_ne_none r)
  · rw [htreturned]
    exact hw.delivered

/-- The request that is executed is the one that was called last. -/
lemma Served.executing (hw : Served S w c done) {r : ρ} (hexecuting : w.executing c = some r) :
    w.called c = done.map Prod.fst ++ [r] ∧ w.toServer c = [] ∧ w.toClient c = [] := by
  rcases hw.requests with ⟨-, h, -⟩ | ⟨hclient, r', hcalled, ⟨h, -⟩ | ⟨h, hserver⟩⟩
  · exact absurd (hexecuting.symm.trans h) (Option.some_ne_none r)
  · exact absurd (hexecuting.symm.trans h) (Option.some_ne_none r)
  · obtain rfl : r' = r := Option.some.inj (h.symm.trans hexecuting)
    exact ⟨hcalled, hserver, hclient⟩

/-- The request that was called last has been executed. -/
lemma Served.respond (hw : Served S w c done) {r : ρ} {a : Client.Answer}
    (hexecuting : w.executing c = some r) (htserver : t.toServer c = w.toServer c)
    (htexecuting : t.executing c = none) (htclient : t.toClient c = w.toClient c ++ a.bytes)
    (htcalled : t.called c = w.called c) (htreturned : t.returned c = w.returned c) :
    Served S t c (done ++ [(r, a)]) := by
  obtain ⟨hcalled, hserver, hclient⟩ := hw.executing hexecuting
  have hlen : (w.called c).length = done.length + 1 := by simp [hcalled]
  have hle := hw.called_le
  refine ⟨?_, ?_, .inl ⟨htserver.trans hserver, htexecuting, ?_⟩, fun _ _ hlt => ?_,
    fun i handed h => ?_⟩
  · rw [htreturned, htcalled]
    exact hw.returned_le
  · rwa [htreturned, htcalled]
  · rw [htcalled, hcalled, List.map_append]
    rfl
  · rw [htreturned, htcalled] at hlt
    have hlast : (w.returned c).length = done.length := by omega
    refine ⟨r, a, ?_, by rw [htclient, hclient, List.nil_append]⟩
    rw [htreturned, hlast]
    simp
  · rw [htreturned] at h
    obtain ⟨r', a', hdone, hrest⟩ := hw.delivered i handed h
    refine ⟨r', a', ?_, hrest⟩
    obtain ⟨hlt, -⟩ := List.getElem?_eq_some_iff.mp hdone
    rw [List.getElem?_append_left hlt, hdone]

/-- A call returns: with the answer that the server gave to it, or with false. -/
lemma Served.wait (hw : Served S w c done)
    (hwaits : (w.returned c).length < (w.called c).length) (heof : .eof ∉ ev)
    (harrives : stream ev <+: w.toClient c) (retVal : Mem) (htserver : t.toServer c = w.toServer c)
    (htexecuting : t.executing c = w.executing c)
    (htclient : t.toClient c
      = taken (w.toClient c) ev (Client.sendMsgAndWait retVal ev).2)
    (htcalled : t.called c = w.called c)
    (htreturned : t.returned c = w.returned c ++ [(Client.sendMsgAndWait retVal ev).1]) :
    Served S t c done := by
  have hlen : (t.returned c).length = (w.returned c).length + 1 := by simp [htreturned]
  have hle := hw.called_le
  refine ⟨by rw [htcalled]; omega, by rw [htcalled]; omega, ?_, fun _ _ hlt => ?_,
    fun i handed h => ?_⟩
  · rw [htserver, htexecuting, htcalled]
    refine hw.requests.imp_right fun ⟨hclient, hrest⟩ => ⟨?_, hrest⟩
    rw [htclient, hclient]
    exact List.drop_nil
  · rw [htcalled] at hlt
    omega
  · rw [htreturned, List.getElem?_append] at h
    split_ifs at h with hi
    · exact hw.delivered i handed h
    · obtain ⟨hzero, htrue⟩ : i - (w.returned c).length = 0 ∧
          (Client.sendMsgAndWait retVal ev).1 = .returnedTrue handed := by
        rw [List.getElem?_singleton] at h
        split_ifs at h with hz
        exact ⟨by omega, Option.some.inj h⟩
      obtain rfl : i = (w.returned c).length := by omega
      rcases hw.requests with ⟨hserver, hidle, -⟩ | ⟨hclient, -⟩
      · obtain ⟨r, a, hdone, hbytes⟩ := hw.answer hserver hidle hwaits
        rw [hbytes] at harrives
        rcases Client.sendMsgAndWait_of_prefix heof harrives retVal with
          hfalse | ⟨hown, hsucceed, -⟩
        · rw [hfalse] at htrue
          cases htrue
        · rw [hown] at htrue
          cases htrue
          exact ⟨r, a, hdone, hsucceed, rfl⟩
      · -- no answer is on its way
        rw [hclient, List.prefix_nil] at harrives
        let a : Client.Answer := ⟨true, [], Nat.zero_le _⟩
        rcases Client.sendMsgAndWait_of_prefix (a := a) heof (by rw [harrives]; exact
          List.nil_prefix) retVal with hfalse | ⟨-, -, hwhole, -⟩
        · rw [hfalse] at htrue
          cases htrue
        · have hlen := congrArg List.length hwhole
          rw [harrives, a.length_bytes] at hlen
          simp at hlen

end

/-! ### Runs -/

variable [DecidableEq ι] {S : Service σ ρ} {w t : Calls σ ρ ι} {s₀ : σ}

omit [DecidableEq ι] in
lemma served_start (c : ι) : Served S (start s₀) c [] where
  returned_le := le_rfl
  called_le := Nat.zero_le _
  requests := .inl ⟨rfl, rfl, rfl⟩
  answer _ _ hlt := absurd hlt (lt_irrefl 0)
  delivered i handed h := by simp [start] at h

/-- What a step does to the server is what the request does that is executed in it, if one is. -/
lemma server_step {a : CallAction ρ ι} {e : Option (ι × ρ × Client.Answer)}
    (hw : ¬ w.overlapped) (hcareful : Undisturbed S w a) (h : Step S w (a, e) t) :
    Run (fun s (e : ι × ρ × Client.Answer) t => S.Answers s e.2.1 e.2.2 t) w.server e.toList
        t.server ∧ ¬ t.overlapped := by
  cases h with
  | send => exact ⟨.nil, hw⟩
  | receive => exact ⟨.nil, fun h => h.elim hw hcareful.1⟩
  | @respond c retVal reply r a t hexecuting hprocess hretVal =>
      exact ⟨.single ⟨retVal, reply, hprocess.resolve_left hw, hretVal⟩, hw⟩
  | wait => exact ⟨.nil, hw⟩

/-- A step leaves each connection in order. -/
lemma served_step {a : CallAction ρ ι} {e : Option (ι × ρ × Client.Answer)}
    {done : ι → List (ρ × Client.Answer)} (hw : ∀ c, Served S w c (done c))
    (hcareful : Undisturbed S w a) (h : Step S w (a, e) t) (c : ι) :
    Served S t c (done c ++ executed c e.toList) := by
  have hnone : executed c (none : Option (ι × ρ × Client.Answer)).toList = [] := rfl
  cases h with
  | @send c' r serialized hfree =>
      obtain ⟨hquiet, hr⟩ := hcareful
      obtain ⟨q, hq, hbytes⟩ := hr.sent serialized
      rw [hnone, List.append_nil]
      rcases eq_or_ne c c' with rfl | hne
      · exact (hw c).send hq hfree hquiet (by simp [hquiet.1, hbytes]) rfl rfl (by simp) rfl
      · exact (hw c).congr (by simp [hne]) rfl rfl (by simp [hne]) rfl
  | @receive c' ev msg r msgLen command hidle harrives hkept hlen hcommand hobj =>
      obtain ⟨r', q, hq, hcalled, hclient, ev', hempty, hread⟩ := (hw c').read hcareful msg
      obtain ⟨-, -, hstream, -⟩ := hcareful
      rw [hread] at hlen hcommand hobj
      obtain rfl := Option.some.inj hlen
      obtain rfl := Option.some.inj hcommand
      obtain rfl : r' = r := Option.some.inj ((hq msg).symm.trans hobj)
      rw [hnone, List.append_nil]
      rcases eq_or_ne c c' with rfl | hne
      · exact (hw c).receive hcalled hclient (by simp [hread, taken, hempty, hstream]) (by simp)
          rfl rfl rfl
      · exact (hw c).congr (by simp [hne]) (by simp [hne]) rfl rfl rfl
  | @respond c' retVal reply r a t hexecuting hprocess hretVal =>
      rcases eq_or_ne c c' with rfl | hne
      · have hdone : executed c (some (c, r, a)).toList = [(r, a)] := by simp [executed]
        rw [hdone]
        refine (hw c).respond hexecuting rfl (by simp) ?_ rfl rfl
        simp only [Function.update_self]
        rw [AsyncServer.writeResponseToClient_eq _ _ a.retVal_le]
        simp only [hretVal]
      · have hdone : executed c (some (c', r, a)).toList = [] := by simp [executed, hne.symm]
        rw [hdone, List.append_nil]
        exact (hw c).congr rfl (by simp [hne]) (by simp [hne]) rfl rfl
  | @wait c' ev retVal hwaits heof harrives =>
      rw [hnone, List.append_nil]
      rcases eq_or_ne c c' with rfl | hne
      · exact (hw c).wait hwaits heof harrives retVal rfl rfl (by simp) rfl (by simp)
      · exact (hw c).congr rfl rfl (by simp [hne]) rfl (by simp [hne])

/-- A run of undisturbed steps is, as far as the server goes, a run of the executed requests. -/
lemma served_of_run {as : List (CallAction ρ ι × Option (ι × ρ × Client.Answer))}
    (h : Run (When (fun w a => Undisturbed S w a.1) (Step S)) (start s₀) as w) :
    Run (fun s (e : ι × ρ × Client.Answer) t => S.Answers s e.2.1 e.2.2 t) s₀ (events as)
        w.server ∧
      ¬ w.overlapped ∧ ∀ c, Served S w c (executed c (events as)) := by
  induction h with
  | nil => exact ⟨.nil, not_false, served_start⟩
  | @snoc as w t a _ hlast ih =>
      obtain ⟨hrun, halone, hserved⟩ := ih
      obtain ⟨a, e⟩ := a
      obtain ⟨hone, halone'⟩ := server_step halone hlast.1 hlast.2
      rw [events_snoc]
      refine ⟨hrun.append hone, halone', fun c => ?_⟩
      rw [executed_append]
      exact served_step hserved hlast.1 hlast.2 c

/-- **Calls are executed at most once.**  In a run in which each request is there as a whole when
the server reads it, which executes no other one then, and each call starts on a connection with
nothing on its way, whatever answers are late: the server is where the executed requests, one after
the other, lead it; on each connection these are the first ones of the calls, in their order; and a
call that returns true was executed, and returns the answer that was given to it. -/
theorem executed_once {as : List (CallAction ρ ι × Option (ι × ρ × Client.Answer))}
    (h : Run (When (fun w a => Undisturbed S w a.1) (Step S)) (start s₀) as w) :
    Run (fun s (e : ι × ρ × Client.Answer) t => S.Answers s e.2.1 e.2.2 t) s₀ (events as)
        w.server ∧
      ∀ c, (executed c (events as)).map Prod.fst <+: w.called c ∧
        ∀ (i : ℕ) handed, (w.returned c)[i]? = some (.returnedTrue handed) →
          ∃ r a, (executed c (events as))[i]? = some (r, a) ∧ a.succeed = true ∧
            handed = a.handed := by
  obtain ⟨hrun, -, hserved⟩ := served_of_run h
  refine ⟨hrun, fun c => ⟨?_, (hserved c).delivered⟩⟩
  rcases (hserved c).requests with ⟨-, -, hcalled⟩ | ⟨-, r, hcalled, -⟩
  · rw [hcalled]
  · rw [hcalled]
    exact List.prefix_append _ _

/-! ### Answers in time -/

/-- A request travels, is there as a whole when the server reads it, which executes no other one
then, and its answer is there when the client reads it, without a read in between that finds no
data. -/
def InTime (S : Service σ ρ) (w : Calls σ ρ ι) : CallAction ρ ι → Prop
  | .send _ r _ => S.Travels r
  | .receive c ev _ => w.ReadAlone c ev
  | .respond .. => True
  | .wait c ev _ => Delivers ev ∧ waits ev = [] ∧ stream ev = w.toClient c ∧ w.toClient c ≠ []

/-- On a connection without a call nothing is on its way, and the calls came to what the server
made of them. -/
structure Settled (w : Calls σ ρ ι) (c : ι) (done : List (ρ × Client.Answer)) : Prop where
  idle : (w.returned c).length = (w.called c).length → w.Quiet c
  outcomes : w.returned c <+: done.map fun e => e.2.outcome

section

variable {c : ι} {done : ι → List (ρ × Client.Answer)} {a : CallAction ρ ι}
  {e : Option (ι × ρ × Client.Answer)}

omit [DecidableEq ι] in
lemma Settled.congr {d : List (ρ × Client.Answer)} (hw : Settled w c d)
    (hserver : t.toServer c = w.toServer c) (hexecuting : t.executing c = w.executing c)
    (hclient : t.toClient c = w.toClient c) (hcalled : t.called c = w.called c)
    (hreturned : t.returned c = w.returned c) : Settled t c d := by
  refine ⟨?_, ?_⟩
  · rw [hreturned, hcalled, Quiet, hserver, hexecuting, hclient]
    exact hw.idle
  · rw [hreturned]
    exact hw.outcomes

/-- Where all answers are in time, nothing disturbs. -/
lemma undisturbed_of_inTime (hsettled : ∀ c, Settled w c (done c)) (hin : InTime S w a)
    (h : Step S w (a, e) t) : Undisturbed S w a := by
  cases h with
  | @send c r serialized hfree => exact ⟨(hsettled c).idle hfree, hin⟩
  | receive => exact hin
  | respond => trivial
  | wait => trivial

lemma settled_step (hw : ∀ c, Served S w c (done c)) (hsettled : ∀ c, Settled w c (done c))
    (hin : InTime S w a) (h : Step S w (a, e) t) (c : ι) :
    Settled t c (done c ++ executed c e.toList) := by
  have hnone : executed c (none : Option (ι × ρ × Client.Answer)).toList = [] := rfl
  cases h with
  | @send c' r serialized hfree =>
      rw [hnone, List.append_nil]
      rcases eq_or_ne c c' with rfl | hne
      · refine ⟨fun hlen => ?_, (hsettled c).outcomes⟩
        simp only [Function.update_self, List.length_append, List.length_singleton] at hlen
        omega
      · exact (hsettled c).congr (by simp [hne]) rfl rfl (by simp [hne]) rfl
  | @receive c' ev msg r msgLen command hidle harrives hkept hlen hcommand hobj =>
      obtain ⟨-, -, -, hne, -⟩ := hin
      rw [hnone, List.append_nil]
      rcases eq_or_ne c c' with rfl | hc
      · exact ⟨fun h => absurd ((hsettled c).idle h).1 hne, (hsettled c).outcomes⟩
      · exact (hsettled c).congr (by simp [hc]) (by simp [hc]) rfl rfl rfl
  | @respond c' retVal reply r b t hexecuting hprocess hretVal =>
      have hprefix : w.returned c <+:
          (done c ++ executed c (some (c', r, b)).toList).map fun e => e.2.outcome := by
        rw [List.map_append]
        exact (hsettled c).outcomes.trans (List.prefix_append _ _)
      rcases eq_or_ne c c' with rfl | hc
      · refine ⟨fun h => ?_, hprefix⟩
        obtain ⟨-, hidle, -⟩ := (hsettled c).idle h
        exact absurd (hexecuting.symm.trans hidle) (Option.some_ne_none r)
      · refine ⟨fun h => ?_, hprefix⟩
        simpa [Quiet, hc] using (hsettled c).idle h
  | @wait c' ev retVal hwaits heof harrives =>
      rw [hnone, List.append_nil]
      rcases eq_or_ne c c' with rfl | hc
      · obtain ⟨hev, hquiet, hstream, hne⟩ := hin
        obtain ⟨hserver, hidle⟩ : w.toServer c = [] ∧ w.executing c = none := by
          rcases (hw c).requests with ⟨h, hidle, -⟩ | ⟨h, -⟩
          · exact ⟨h, hidle⟩
          · exact absurd h hne
        obtain ⟨r, b, hdone, hbytes⟩ := (hw c).answer hserver hidle hwaits
        obtain ⟨hout, hempty⟩ :=
          Client.sendMsgAndWait_of_inTime hev hquiet (hstream.trans hbytes) retVal
        refine ⟨fun _ => ⟨hserver, hidle, ?_⟩, ?_⟩
        · simp [taken, hempty, hstream]
        · simp only [Function.update_self, hout]
          obtain ⟨rest, hrest⟩ := (hsettled c).outcomes
          have hnext : ((done c).map fun e => e.2.outcome)[(w.returned c).length]?
              = some b.outcome := by rw [List.getElem?_map, hdone]; rfl
          rw [← hrest, List.getElem?_append_right le_rfl, Nat.sub_self] at hnext
          cases rest with
          | nil => cases hnext
          | cons o rest =>
              obtain rfl : o = b.outcome := Option.some.inj hnext
              exact ⟨rest, by rw [← hrest]; simp⟩
      · exact (hsettled c).congr rfl rfl (by simp [hc]) rfl (by simp [hc])

end

/-- A run in which all answers are in time is undisturbed, and leaves each connection settled. -/
lemma settled_of_run {as : List (CallAction ρ ι × Option (ι × ρ × Client.Answer))}
    (h : Run (When (fun w a => InTime S w a.1) (Step S)) (start s₀) as w) :
    Run (When (fun w a => Undisturbed S w a.1) (Step S)) (start s₀) as w ∧
      ∀ c, Settled w c (executed c (events as)) := by
  induction h with
  | nil => exact ⟨.nil, fun c => ⟨fun _ => ⟨rfl, rfl, rfl⟩, List.prefix_rfl⟩⟩
  | @snoc as w t a _ hlast ih =>
      obtain ⟨hrun, hsettled⟩ := ih
      obtain ⟨a, e⟩ := a
      refine ⟨hrun.snoc ⟨undisturbed_of_inTime hsettled hlast.1 hlast.2, hlast.2⟩, fun c => ?_⟩
      rw [events_snoc, executed_append]
      exact settled_step (served_of_run hrun).2.2 hsettled hlast.1 hlast.2 c

/-- **Calls are executed exactly once.**  In a run in which each request is there as a whole when
the server reads it, which executes no other one then, and each answer is there when the client
waits for it: the server is where the executed requests lead it; on each connection these are the
first ones of the calls; all calls but the last one have returned; and those that have come to what
the server made of them. -/
theorem executed_exactly_once {as : List (CallAction ρ ι × Option (ι × ρ × Client.Answer))}
    (h : Run (When (fun w a => InTime S w a.1) (Step S)) (start s₀) as w) :
    Run (fun s (e : ι × ρ × Client.Answer) t => S.Answers s e.2.1 e.2.2 t) s₀ (events as)
        w.server ∧
      ∀ c, (executed c (events as)).map Prod.fst <+: w.called c ∧
        (w.called c).length ≤ (w.returned c).length + 1 ∧
        w.returned c <+: (executed c (events as)).map fun e => e.2.outcome := by
  obtain ⟨hundisturbed, hsettled⟩ := settled_of_run h
  obtain ⟨hrun, -, hserved⟩ := served_of_run hundisturbed
  refine ⟨hrun, fun c => ⟨?_, (hserved c).called_le, (hsettled c).outcomes⟩⟩
  exact ((executed_once hundisturbed).2 c).1

/-! ### What the calls come to -/

/-- The executed requests with what their answers mean to the client. -/
def results {β : Type*} (result : ρ → Client.Outcome → β)
    (as : List (CallAction ρ ι × Option (ι × ρ × Client.Answer))) : List (ι × ρ × β) :=
  (events as).map fun e => (e.1, e.2.1, result e.2.1 e.2.2.outcome)

section

variable {β : Type*} {result : ρ → Client.Outcome → β} {spec : σ → ρ → β → σ → Prop}
  {as : List (CallAction ρ ι × Option (ι × ρ × Client.Answer))} {s : σ}

omit [DecidableEq ι] in
/-- Pairs behind the shorter list do not count. -/
lemma zipWith_prefix {α γ δ : Type*} {f : α → γ → δ} {l l' : List α} {m m' : List γ}
    (h : m.length ≤ l.length) :
    List.zipWith f (l ++ l') m <+: List.zipWith f l (m ++ m') := by
  have htake : (l.take m.length).length = m.length := by
    rw [List.length_take]
    omega
  have hleft : List.zipWith f (l ++ l') m = List.zipWith f (l.take m.length) m := by
    conv_lhs => rw [← List.take_append_drop m.length l, List.append_assoc, ← List.append_nil m]
    rw [List.zipWith_append (by simpa using htake)]
    simp
  rw [hleft]
  conv_rhs => rw [← List.take_append_drop m.length l]
  rw [List.zipWith_append htake]
  exact List.prefix_append _ _

omit [DecidableEq ι] in
/-- If the answers mean what the specification says, the executed requests are a run of it. -/
lemma run_results (hspec : ∀ s r a t, S.Answers s r a t → spec s r (result r a.outcome) t)
    (h : Run (fun s (e : ι × ρ × Client.Answer) t => S.Answers s e.2.1 e.2.2 t) s₀ (events as)
      s) :
    Run (fun s (e : ι × ρ × β) t => spec s e.2.1 e.2.2 t) s₀ (results result as) s := by
  rw [results]
  generalize events as = es at h ⊢
  induction h with
  | nil => exact .nil
  | snoc _ hlast ih =>
      rw [List.map_append]
      exact ih.snoc (hspec _ _ _ _ hlast)

lemma executed_results (c : ι) :
    executed c (results result as)
      = (executed c (events as)).map fun e => (e.1, result e.1 e.2.outcome) :=
  executed_map c (fun e : ρ × Client.Answer => (e.1, result e.1 e.2.outcome)) (events as)

/-- Calls that are executed exactly once come to what the specification says. -/
lemma results_exactly_once (result : ρ → Client.Outcome → β) (spec : σ → ρ → β → σ → Prop)
    (hspec : ∀ s r a t, S.Answers s r a t → spec s r (result r a.outcome) t)
    (h : Run (When (fun w a => InTime S w a.1) (Step S)) (start s₀) as w) :
    Run (fun s (e : ι × ρ × β) t => spec s e.2.1 e.2.2 t) s₀ (results result as) w.server ∧
      ∀ c, (executed c (results result as)).map Prod.fst <+: w.called c ∧
        (w.called c).length ≤ (w.returned c).length + 1 ∧
        List.zipWith result (w.called c) (w.returned c)
          <+: (executed c (results result as)).map Prod.snd := by
  obtain ⟨hrun, hcalls⟩ := executed_exactly_once h
  refine ⟨run_results hspec hrun, fun c => ?_⟩
  obtain ⟨hcalled, hle, hreturned⟩ := hcalls c
  simp only [executed_results, List.map_map, Function.comp_def]
  refine ⟨hcalled, hle, ?_⟩
  obtain ⟨later, hlater⟩ := hcalled
  obtain ⟨rest, hrest⟩ := hreturned
  have hlen : (w.returned c).length ≤ (executed c (events as)).length := by
    have := congrArg List.length hrest
    simp at this
    omega
  have hwhole : List.zipWith result ((executed c (events as)).map Prod.fst)
      ((executed c (events as)).map fun e => e.2.outcome)
        = (executed c (events as)).map fun e => result e.1 e.2.outcome := by
    rw [List.zipWith_map]
    exact List.zipWith_self ..
  rw [← hwhole, ← hlater, ← hrest]
  exact zipWith_prefix (by rwa [List.length_map])

/-- Calls that are executed at most once return true with what the specification says. -/
lemma results_once (result : ρ → Client.Outcome → β) (spec : σ → ρ → β → σ → Prop)
    (hspec : ∀ s r a t, S.Answers s r a t → spec s r (result r a.outcome) t)
    (h : Run (When (fun w a => Undisturbed S w a.1) (Step S)) (start s₀) as w) :
    Run (fun s (e : ι × ρ × β) t => spec s e.2.1 e.2.2 t) s₀ (results result as) w.server ∧
      ∀ c, (executed c (results result as)).map Prod.fst <+: w.called c ∧
        ∀ (i : ℕ) handed, (w.returned c)[i]? = some (.returnedTrue handed) →
          ∃ r, (w.called c)[i]? = some r ∧
            (executed c (results result as))[i]? = some (r, result r (.returnedTrue handed)) := by
  obtain ⟨hrun, hcalls⟩ := executed_once h
  refine ⟨run_results hspec hrun, fun c => ?_⟩
  obtain ⟨hcalled, hreturned⟩ := hcalls c
  simp only [executed_results, List.map_map, Function.comp_def]
  refine ⟨hcalled, fun i handed hi => ?_⟩
  obtain ⟨r, a, hdone, hsucceed, rfl⟩ := hreturned i handed hi
  obtain ⟨later, hlater⟩ := hcalled
  refine ⟨r, ?_, ?_⟩
  · rw [← hlater, List.getElem?_append_left, List.getElem?_map, hdone]
    · rfl
    · rw [List.length_map]
      exact (List.getElem?_eq_some_iff.mp hdone).1
  · simp [hdone, Client.Answer.outcome, hsucceed]

end

/-- A request that is on its way as a whole can be read, when the server executes no other one. -/
lemma exists_receive {w : Calls σ ρ ι} {c : ι} {q : Request} {r : ρ} (hq : S.ReadsAs q r)
    (hidle : ¬ w.Busy) (hbytes : w.toServer c = q.bytes) :
    ∃ ev, w.ReadAlone c ev ∧ Step S w (.receive c ev fun _ => 0, none)
      { w with
        executing := Function.update w.executing c (some r)
        toServer := Function.update w.toServer c [] } := by
  have hev : Delivers (pushBack q.bytes []) := delivers_pushBack (by simp [Delivers])
  have hstream : stream (pushBack q.bytes []) = q.bytes ++ [] := by simp [stream]
  have hwaits : waits (pushBack q.bytes []) = [] := by simp [waits]
  have hpauses : ∀ p ∈ waits (pushBack q.bytes []), q.bytes.length ≤ p := by simp [hwaits]
  have hread := AsyncServer.readCommonClientRequest_of_quiet hev hstream hpauses fun _ => 0
  have hempty := (advance_two_spec hev q.length_bytes hstream hpauses).1
  have hfree : w.executing c = none := by
    by_contra h
    exact hidle ⟨c, h⟩
  have h : Step S w (.receive c (pushBack q.bytes []) (fun _ => 0), none) _ :=
    .receive hfree (by simp [hbytes, hstream]) (by rw [hread]) (by rw [hread]) (by rw [hread])
      (by rw [hread]; exact hq fun _ => 0)
  refine ⟨_, ⟨hidle, hev, ?_, ?_, by simp [hwaits]⟩, ?_⟩
  · rw [hstream, hbytes, List.append_nil]
  · rw [hbytes]
    exact request_bytes_ne q
  · simpa [hread, taken, hempty, hstream, hbytes, hidle] using h

/-- An answer that is there as a whole can be read. -/
lemma exists_wait {w : Calls σ ρ ι} {c : ι} {a : Client.Answer}
    (hcalled : (w.returned c).length < (w.called c).length) (hbytes : w.toClient c = a.bytes) :
    ∃ ev, InTime S w (.wait c ev fun _ => 0) ∧ Step S w (.wait c ev fun _ => 0, none)
      { w with
        toClient := Function.update w.toClient c []
        returned := Function.update w.returned c (w.returned c ++ [a.outcome]) } := by
  have hev : Delivers (pushBack a.bytes []) := delivers_pushBack (by simp [Delivers])
  have hstream : stream (pushBack a.bytes []) = a.bytes := by simp [stream]
  have hwaits : waits (pushBack a.bytes []) = [] := by simp [waits]
  obtain ⟨hout, hdone⟩ := Client.sendMsgAndWait_of_inTime hev hwaits hstream fun _ => 0
  have h : Step S w (.wait c (pushBack a.bytes []) fun _ => 0, none) _ :=
    .wait hcalled (Client.eof_notMem_pushBack (by simp)) (by rw [hstream, hbytes])
  refine ⟨_, ⟨hev, hwaits, hstream.trans hbytes.symm, fun hnil => ?_⟩, ?_⟩
  · have hlength := a.length_bytes
    rw [← hbytes, hnil, List.length_nil] at hlength
    omega
  · simpa [taken, hout, hdone, hstream, hbytes] using h

/-- A call on a free connection can be executed and answered in time. -/
lemma exists_call (w : Calls σ ρ ι) (c : ι) {r : ρ} {a : Client.Answer} {t : σ}
    (hfree : (w.returned c).length = (w.called c).length) (hquiet : w.Quiet c)
    (hidle : ¬ w.Busy) (hr : S.Travels r) (ha : S.Answers w.server r a t) :
    ∃ as, events as = [(c, r, a)] ∧
      Run (When (fun w a => InTime S w a.1) (Step S)) w as
        { w with
          server := t
          called := Function.update w.called c (w.called c ++ [r])
          returned := Function.update w.returned c (w.returned c ++ [a.outcome]) } := by
  obtain ⟨retVal, reply, hprocess, hretVal⟩ := ha
  obtain ⟨hserver, hexecuting, hclient⟩ := hquiet
  obtain ⟨q, hq, hbytes⟩ := hr.sent fun _ => 0
  -- the request is on its way, is executed, and then the answer is on its way
  let w₁ : Calls σ ρ ι :=
    { w with
      toServer := Function.update w.toServer c q.bytes
      called := Function.update w.called c (w.called c ++ [r]) }
  let w₂ : Calls σ ρ ι :=
    { w₁ with
      executing := Function.update w.executing c (some r)
      toServer := w.toServer }
  let w₃ : Calls σ ρ ι :=
    { w₁ with
      server := t
      toServer := w.toServer
      toClient := Function.update w.toClient c a.bytes }
  have hsend : Step S w (.send c r fun _ => 0, none) w₁ := by
    have h : Step S w (.send c r fun _ => 0, none) _ := .send hfree
    rwa [← hbytes, hserver, List.nil_append] at h
  obtain ⟨ev, hin, hreceive⟩ : ∃ ev, w₁.ReadAlone c ev ∧
      Step S w₁ (.receive c ev fun _ => 0, none) w₂ := by
    have hback : Function.update w.toServer c [] = w.toServer := by
      rw [← hserver, Function.update_eq_self]
    have h := exists_receive (w := w₁) hq hidle (Function.update_self ..)
    rwa [show Function.update w₁.toServer c [] = w.toServer by simp [w₁, hback]] at h
  have hrespond : Step S w₂ (.respond c retVal, some (c, r, a)) w₃ := by
    have h : Step S w₂ (.respond c retVal, some (c, r, a)) _ :=
      .respond (Function.update_self ..) (.inr hprocess) hretVal
    have hreply : AsyncServer.writeResponseToClient a.succeed reply a.retVal.length = a.bytes := by
      rw [AsyncServer.writeResponseToClient_eq _ _ a.retVal_le]
      simp only [hretVal]
    have hback : Function.update w.executing c none = w.executing := by
      rw [← hexecuting, Function.update_eq_self]
    simpa [w₁, w₂, w₃, hclient, hreply, hback] using h
  obtain ⟨ev', hin', hwait⟩ : ∃ ev, InTime S w₃ (.wait c ev fun _ => 0) ∧
      Step S w₃ (.wait c ev fun _ => 0, none)
        { w with
          server := t
          called := Function.update w.called c (w.called c ++ [r])
          returned := Function.update w.returned c (w.returned c ++ [a.outcome]) } := by
    have hback : Function.update w.toClient c [] = w.toClient := by
      rw [← hclient, Function.update_eq_self]
    have h := exists_wait (S := S) (w := w₃) (c := c) (a := a) (by simp [w₃, w₁, hfree])
      (Function.update_self ..)
    rwa [show Function.update w₃.toClient c [] = w.toClient by simp [w₃, hback]] at h
  refine ⟨_, ?_, .cons ⟨?_, hsend⟩ (.cons ⟨?_, hreceive⟩ (.cons ⟨?_, hrespond⟩
    (.single ⟨hin', hwait⟩)))⟩
  · rfl
  · exact hr
  · exact hin
  · trivial

/-- A call on a free connection whose answer does not come in time. -/
lemma exists_late_call (w : Calls σ ρ ι) (c : ι) {r : ρ}
    (hfree : (w.returned c).length = (w.called c).length) (hquiet : w.Quiet c)
    (hr : S.Travels r) :
    ∃ as t, events as = [] ∧ Run (When (fun w a => Undisturbed S w a.1) (Step S)) w as t ∧
      t.called = Function.update w.called c (w.called c ++ [r]) ∧
      t.returned = Function.update w.returned c (w.returned c ++ [.returnedFalse]) := by
  let w₁ : Calls σ ρ ι :=
    { w with
      toServer := Function.update w.toServer c (w.toServer c ++
        Client.sendMsg (Client.prepareToSend (S.serializeObject r) (S.command r) fun _ => 0).1
          (Client.prepareToSend (S.serializeObject r) (S.command r) fun _ => 0).2)
      called := Function.update w.called c (w.called c ++ [r]) }
  have hsend : Step S w (.send c r fun _ => 0, none) w₁ := .send hfree
  have hwait : Step S w₁ (.wait c [] fun _ => 0, none) _ :=
    .wait (by simp [w₁, hfree]) List.not_mem_nil List.nil_prefix
  have hundisturbed : Undisturbed S w (.send c r fun _ => 0) := ⟨hquiet, hr⟩
  refine ⟨[(.send c r fun _ => 0, none), (.wait c [] fun _ => 0, none)], _, rfl,
    .cons ⟨hundisturbed, hsend⟩ (.single ⟨?_, hwait⟩), rfl, rfl⟩
  trivial

end Calls

end FtThesis
