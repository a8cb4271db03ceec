/-
Does a call of `sendMsgAndWait` deliver the answer to its own request?

The calls on one connection come one after another.  The server answers each request,
in order, and an answer may come at any time, also after its call has returned.

* `Connection`: the bytes of the answers that are not read yet, and what the calls came
  to; `step`: one more call;
* `paired_of_unread`: the answers are paired with their requests in every run in which
  no byte of an earlier answer is unread when a call starts;
* `paired_of_returnedTrue`: so they are as long as no call has returned false;
* `not_paired`: a call that timed out leaves its answer to the next call.
-/
import FtThesis.Library.Runs
import FtThesis.Transport.Client

namespace FtThesis

open Memory Socket Transition Client

/-- A call of `sendMsgAndWait` on a connection: the answer to its request, what the
reads of the call come to, and the contents of the new buffer. -/
structure Call where
  answer : Answer
  events : List Event
  retVal : Mem

/-- A connection: the bytes of answers that are not read yet, and the calls so far with
the answers to their requests. -/
structure Connection where
  unread : List UInt8
  calls : List (Answer × Outcome)

/-- A call that returns true has delivered the answer. -/
def Paired (a : Answer) (outcome : Outcome) : Prop :=
  ∀ handed, outcome = .returnedTrue handed → a.succeed = true ∧ handed = a.handed

namespace Connection

variable {s t : Connection} {c : Call} {cs : List Call}

/-- A new connection. -/
def opened : Connection := ⟨[], []⟩

/-- The connection after a call: the bytes that the call has not read are unread,
whether they arrive during the call or later. -/
def after (s : Connection) (c : Call) : Connection :=
  let r := sendMsgAndWait c.retVal c.events
  ⟨(s.unread ++ c.answer.bytes).drop ((stream c.events).length - (stream r.2).length),
    s.calls ++ [(c.answer, r.1)]⟩

lemma calls_after (s : Connection) (c : Call) :
    (s.after c).calls = s.calls ++ [(c.answer, (sendMsgAndWait c.retVal c.events).1)] := rfl

/-- One more call: of the unread bytes and the answer to its request, some arrive
during the call, and the server does not end the connection. -/
def step (s : Connection) (c : Call) (t : Connection) : Prop :=
  .eof ∉ c.events ∧ stream c.events <+: s.unread ++ c.answer.bytes ∧ t = s.after c

/-- Every call that returned true has delivered the answer to its own request. -/
def AllPaired (s : Connection) : Prop := ∀ call ∈ s.calls, Paired call.1 call.2

/-- No call has returned false. -/
def NoneFalse (s : Connection) : Prop := ∀ call ∈ s.calls, call.2 ≠ .returnedFalse

lemma allPaired_opened : opened.AllPaired := by simp [opened, AllPaired]

/-! ### One call -/

/-- A call that starts with nothing unread is paired with its answer. -/
lemma paired_of_step (hunread : s.unread = []) (h : step s c t) :
    Paired c.answer (sendMsgAndWait c.retVal c.events).1 := by
  obtain ⟨heof, hstream, -⟩ := h
  rw [hunread, List.nil_append] at hstream
  intro handed htrue
  rcases sendMsgAndWait_of_prefix heof hstream c.retVal with hfalse | ⟨hown, hsucceed, -⟩
  · rw [hfalse] at htrue
    cases htrue
  · rw [hown] at htrue
    cases htrue
    exact ⟨hsucceed, rfl⟩

lemma allPaired_of_step (hunread : s.unread = []) (hs : s.AllPaired) (h : step s c t) :
    t.AllPaired := by
  have hpaired := paired_of_step hunread h
  obtain ⟨-, -, rfl⟩ := h
  intro call hcall
  rcases List.mem_append.mp hcall with hold | hnew
  · exact hs call hold
  · rw [List.mem_singleton.mp hnew]
    exact hpaired

/-- A call that starts with nothing unread, and does not return false, leaves nothing
unread. -/
lemma unread_of_step (hunread : s.unread = []) (h : step s c t) (ht : t.NoneFalse) :
    t.unread = [] := by
  obtain ⟨heof, hstream, rfl⟩ := h
  rw [hunread, List.nil_append] at hstream
  rcases sendMsgAndWait_of_prefix heof hstream c.retVal with hfalse | ⟨-, -, hwhole, hempty⟩
  · exact absurd hfalse (ht _ (List.mem_append_right _ (List.mem_singleton_self _)))
  · rw [after, hunread, hwhole, hempty]
    exact List.drop_length

end Connection

open Connection

variable {s t : Connection} {c : Call} {cs : List Call}

/-- **Pairing of requests and answers.**  In every run of calls on one connection in
which each call starts with no byte of an earlier answer unread, every call that returns
true delivers the status and the return value of the answer to its own request. -/
theorem paired_of_unread (h : Run (When (fun s _ => s.unread = []) step) opened cs s) :
    s.AllPaired :=
  h.invariant (I := AllPaired) (fun _ _ _ hs hst => allPaired_of_step hst.1 hs hst.2)
    allPaired_opened

/-- An answer with one byte. -/
def oneByteAnswer (b : UInt8) : Answer := ⟨true, [b], by simp [Client.maxRetValLength]⟩

/-- A call whose answer comes after a read that found no data, and in two parts. -/
def delayedCall : Call :=
  let bytes := (oneByteAnswer 7).bytes
  ⟨oneByteAnswer 7, .again :: pushBack (bytes.take 3) (pushBack (bytes.drop 3) []), fun _ => 0⟩

/-- A call whose answer comes at once. -/
def nextCall : Call := ⟨oneByteAnswer 8, pushBack (oneByteAnswer 8).bytes [], fun _ => 0⟩

/-- A second call after the delayed answer of the first one. -/
theorem paired_of_two_calls :
    ∃ s, Run (When (fun s _ => s.unread = []) step) opened [delayedCall, nextCall] s ∧
      s.calls.map Prod.snd = [.returnedTrue (some (1, [7])), .returnedTrue (some (1, [8]))] ∧
      s.AllPaired := by
  have hfirst : step opened delayedCall (opened.after delayedCall) := ⟨by decide, by decide, rfl⟩
  have hsecond : step (opened.after delayedCall) nextCall
      ((opened.after delayedCall).after nextCall) := ⟨by decide, by decide, rfl⟩
  have hrun : Run (When (fun s _ => s.unread = []) step) opened [delayedCall, nextCall] _ :=
    .cons ⟨rfl, hfirst⟩ (.single ⟨by decide, hsecond⟩)
  exact ⟨_, hrun, by decide, paired_of_unread hrun⟩

/-- As long as no call has returned false, the next one delivers the answer to its own
request. -/
theorem paired_of_returnedTrue (h : Run (Into NoneFalse step) opened cs s) (hc : step s c t) :
    t.AllPaired := by
  have hs : s.unread = [] ∧ s.AllPaired :=
    h.invariant (I := fun s => s.unread = [] ∧ s.AllPaired)
      (fun _ _ _ hs hst =>
        ⟨unread_of_step hs.1 hst.1 hst.2, allPaired_of_step hs.1 hs.2 hst.1⟩)
      ⟨rfl, allPaired_opened⟩
  exact allPaired_of_step hs.1 hs.2 hc

/-! ### A late answer -/

/-- Any answer may be what the call after its own call delivers, whatever the answer to
that one's request is. -/
lemma late_answer {a : Answer} (ha : a.succeed = true) (b : Answer) :
    ∃ cs s, Run step opened cs s ∧ (b, .returnedTrue a.handed) ∈ s.calls := by
  let first : Call := ⟨a, [.again, .again], fun _ => 0⟩
  let second : Call := ⟨b, pushBack a.bytes [], fun _ => 0⟩
  have hunread : (opened.after first).unread = a.bytes := by
    simp [first, after, stream, opened]
  have hfirst : step opened first (opened.after first) :=
    ⟨by simp [first], List.nil_prefix, rfl⟩
  have hsecond : step (opened.after first) second ((opened.after first).after second) := by
    refine ⟨eof_notMem_pushBack (by simp), ?_, rfl⟩
    rw [hunread]
    simp [second, stream]
  refine ⟨_, _, (Run.single hfirst).snoc hsecond, ?_⟩
  have hcall : (sendMsgAndWait second.retVal second.events).1 = .returnedTrue a.handed :=
    sendMsgAndWait_of_quiet (delivers_pushBack (by simp [Delivers])) (by simp [waits])
      (by simp [stream]) ha second.retVal
  rw [calls_after, ← hcall]
  exact List.mem_append_right _ (List.mem_singleton_self _)

/-- The first call returns false, and the answer to its request comes during the second
one: this one returns true with an answer that is not its own. -/
theorem not_paired : ¬ ∀ cs s, Run step opened cs s → s.AllPaired := by
  intro h
  obtain ⟨cs, s, hrun, hcall⟩ := late_answer (a := oneByteAnswer 1) rfl (oneByteAnswer 2)
  obtain ⟨-, hhanded⟩ := h cs s hrun _ hcall _ rfl
  simp [Answer.handed, oneByteAnswer] at hhanded

end FtThesis
