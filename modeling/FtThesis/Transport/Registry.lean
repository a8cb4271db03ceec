/-
The registry of the asynchronous server: which client belongs to which thread.

There is one thread for each host, with the set of the descriptors of its clients.

* `Descriptor`, `ThreadInfo`, `Registry`: the data, with what the kernel knows of the
  descriptors;
* `addNewClient`, `getThreadInfoBySockfd`, `doRemoveClient`, `removeOrphanThreads`: the
  functions;
* `Registry.Step`: a connection is accepted, a peer closes, an error event is delivered;
* `Registry.Sound`, `Registry.Right`: what is to hold of a state and of a step;
* `Registry.Inv`: the invariant, with a lemma for each kind of step;
* `registry_right_iff`: a run is right throughout exactly when no close or error is for the last
  client of its host, whose thread is deleted and used again, and the error events come at places
  at which the events of the server itself have the same descriptor.
-/
import FtThesis.Library.Runs
import Mathlib.Data.String.Basic

namespace FtThesis

open Transition

/-- A file descriptor. -/
abbrev Fd := ℕ

/-- What an open descriptor is. -/
inductive Descriptor (Host : Type*)
  | listener
  | client (host : Host)
  | other
deriving DecidableEq

/-- `ThreadInfo`, as far as the registry is concerned. -/
structure ThreadInfo where
  id : ℕ
  sockfds : Finset Fd
deriving DecidableEq

/-- The state of the server: `threadsInfo` in the order of the hosts, `activeThreads` by
their ids, the last id, and the descriptors in the array `events` of the server; and the
open descriptors of the process. -/
structure Registry (Host : Type*) where
  listener : Fd
  threadsInfo : List (Host × ThreadInfo)
  activeThreads : Finset ℕ
  threadIdSequencer : ℕ
  events : ℕ → Fd
  descriptors : Fd → Option (Descriptor Host)

namespace Registry

variable {Host : Type*}

/-! ### The functions of the server -/

/-- The server after `init`, with other descriptors that are open. -/
def init (listener : Fd) (others : Finset Fd) : Registry Host where
  listener := listener
  threadsInfo := []
  activeThreads := ∅
  threadIdSequencer := 0
  events := fun _ => 0
  descriptors := fun fd =>
    if fd = listener then some .listener else if fd ∈ others then some .other else none

/-- `getThreadInfoBySockfd`: without a thread for the descriptor, it is the last one. -/
def getThreadInfoBySockfd (s : Registry Host) (sockfd : Fd) : Option (Host × ThreadInfo) :=
  (s.threadsInfo.find? fun p => sockfd ∈ p.2.sockfds).or s.threadsInfo.getLast?

/-- `removeOrphanThreads`, where `none` is for what is undefined.  A thread without clients is
deleted (`delete info`); behind that its id is looked up in `activeThreads`, its lock is unlocked,
and it goes on itself with its own `info`. -/
def removeOrphanThreads (s : Registry Host) : Option (Registry Host) :=
  if s.threadsInfo.any fun p => p.2.sockfds = ∅ then none else some s

section

variable [LinearOrder Host]

/-- The set of the thread of a host is changed. -/
def updateSockfds (threads : List (Host × ThreadInfo)) (host : Host) (f : Finset Fd → Finset Fd) :
    List (Host × ThreadInfo) :=
  threads.map fun p =>
    (p.1, { p.2 with sockfds := if p.1 = host then f p.2.sockfds else p.2.sockfds })

/-- `getOrCreateThreadInfo`, and the start of the thread if it is new. -/
def getOrCreateThreadInfo (s : Registry Host) (host : Host) : Registry Host :=
  if host ∈ s.threadsInfo.map Prod.fst then s
  else
    let id := s.threadIdSequencer + 1
    { s with
      threadsInfo := s.threadsInfo.orderedInsert (fun p p' => p.1 ≤ p'.1) (host, ⟨id, ∅⟩)
      activeThreads := insert id s.activeThreads
      threadIdSequencer := id }

/-- `addNewClient` with `addSockfdToThreadInfo`, when the connection `infd` of a host is
accepted. -/
def addNewClient (s : Registry Host) (host : Host) (infd : Fd) : Registry Host :=
  let s := s.getOrCreateThreadInfo host
  { s with
    threadsInfo := updateSockfds s.threadsInfo host (insert infd)
    descriptors := Function.update s.descriptors infd (some (.client host)) }

/-- `doRemoveClient` without a thread. -/
def doRemoveClient (s : Registry Host) (sockfdToRemove : Fd) : Option (Registry Host) :=
  match s.getThreadInfoBySockfd sockfdToRemove with
  | none => some s
  | some (host, _) =>
      removeOrphanThreads
        { s with
          threadsInfo := updateSockfds s.threadsInfo host fun fds => fds.erase sockfdToRemove
          descriptors := Function.update s.descriptors sockfdToRemove none }

end

/-! ### The steps -/

/-- The events: a connection is accepted, a read of a client returns 0, and an error event
for a client is delivered to its thread, at the given place of the thread's events. -/
inductive Action (Host : Type*)
  | accept (host : Host) (infd : Fd)
  | peerClose (sockfd : Fd)
  | error (i : ℕ) (sockfd : Fd)

/-- `MAXEVENTS`. -/
def maxEvents : ℕ := 64

/-- The descriptor is that of a client. -/
def IsClient (s : Registry Host) (fd : Fd) : Prop := ∃ host, s.descriptors fd = some (.client host)

instance (s : Registry Host) (fd : Fd) : Decidable (s.IsClient fd) :=
  match h : s.descriptors fd with
  | some (.client host) => .isTrue ⟨host, h⟩
  | none | some .listener | some .other => .isFalse (by simp [IsClient, h])

/-- The events that can come.  A descriptor of a new connection was closed before. -/
def Possible (s : Registry Host) : Action Host → Prop
  | .accept _ infd => s.descriptors s.listener = some .listener ∧ s.descriptors infd = none
  | .peerClose sockfd => s.IsClient sockfd
  | .error i sockfd => s.IsClient sockfd ∧ i < maxEvents

/-- What the server does, if it is defined.  The main thread learns of a new connection by the
event at place 0 of its own events; `runThread` takes the descriptor of an error from the events
of the server, not from those of its thread. -/
def handle [LinearOrder Host] (s : Registry Host) : Action Host → Option (Registry Host)
  | .accept host infd =>
      some ({ s with events := Function.update s.events 0 s.listener }.addNewClient host infd)
  | .peerClose sockfd => s.doRemoveClient sockfd
  | .error i _ => s.doRemoveClient (s.events i)

/-- The steps of the server.  It is in no state any more when it has done what is undefined. -/
def Step [LinearOrder Host] :
    Option (Registry Host) → Action Host → Option (Registry Host) → Prop
  | some s, a, t => s.Possible a ∧ t = s.handle a
  | none, _, _ => False

/-! ### What is to hold -/

/-- A descriptor is in the set of the thread of a host. -/
def Registered (s : Registry Host) (host : Host) (fd : Fd) : Prop :=
  ∃ info, (host, info) ∈ s.threadsInfo ∧ fd ∈ info.sockfds

/-- Every open client is registered at exactly one thread, that of its host; and every
registered thread has a client and is active. -/
structure Sound (s : Registry Host) : Prop where
  clients : ∀ fd host, s.descriptors fd = some (.client host) →
    ∃ p ∈ s.threadsInfo, fd ∈ p.2.sockfds ∧ p.1 = host ∧
      ∀ p' ∈ s.threadsInfo, fd ∈ p'.2.sockfds → p' = p
  threads : ∀ p ∈ s.threadsInfo, p.2.sockfds ≠ ∅ ∧ p.2.id ∈ s.activeThreads

/-- The descriptor of a close or of an error is closed and unregistered, and no other. -/
def ClosesOnly (s : Registry Host) (a : Action Host) (t : Registry Host) : Prop :=
  match a with
  | .accept _ _ => True
  | .peerClose fd | .error _ fd =>
      t.descriptors = Function.update s.descriptors fd none ∧
        ∀ host fd', t.Registered host fd' ↔ s.Registered host fd' ∧ fd' ≠ fd

/-- A step does nothing undefined, closes what it should, and leads to a sound state. -/
def Right : Option (Registry Host) → Action Host → Option (Registry Host) → Prop
  | some s, a, some t => ClosesOnly s a t ∧ t.Sound
  | _, _, _ => False

/-- The host of a client has another client. -/
def HasOther (s : Registry Host) (fd : Fd) : Prop :=
  ∃ host fd', fd' ≠ fd ∧ s.descriptors fd = some (.client host) ∧
    s.descriptors fd' = some (.client host)

/-- A close or an error is for a client whose host has another one, and an error event comes at a
place at which the events of the server have the same descriptor. -/
def Harmless : Option (Registry Host) → Action Host → Prop
  | some s, .peerClose fd => s.HasOther fd
  | some s, .error i fd => s.events i = fd ∧ s.HasOther fd
  | _, _ => True

/-! ### The invariant -/

/-- There is one thread for each host, under an id of its own, and it is active. -/
structure Keyed (s : Registry Host) : Prop where
  hosts : (s.threadsInfo.map Prod.fst).Nodup
  ids : (s.threadsInfo.map (·.2.id)).Nodup
  id_le : ∀ p ∈ s.threadsInfo, p.2.id ≤ s.threadIdSequencer
  active : ∀ p ∈ s.threadsInfo, p.2.id ∈ s.activeThreads

/-- The invariant of the server: the threads have clients, and these are the open ones. -/
structure Inv (s : Registry Host) : Prop extends Keyed s where
  nonempty : ∀ p ∈ s.threadsInfo, p.2.sockfds ≠ ∅
  registered : ∀ host fd, s.Registered host fd ↔ s.descriptors fd = some (.client host)
  listening : s.descriptors s.listener = some .listener

/-- A descriptor is registered at one host only. -/
lemma Inv.host_eq {s : Registry Host} (h : s.Inv) {host host' : Host} {fd : Fd}
    (hreg : s.Registered host fd) (hclient : s.descriptors fd = some (.client host')) :
    host = host' := by
  have heq := (h.registered host fd).mp hreg
  rw [hclient] at heq
  injection heq with heq
  injection heq with heq
  exact heq.symm

lemma Inv.sound {s : Registry Host} (h : s.Inv) : s.Sound where
  clients fd host hfd := by
    obtain ⟨info, hmem, hinfo⟩ := (h.registered host fd).mpr hfd
    refine ⟨(host, info), hmem, hinfo, rfl, fun p' hp' hfd' => ?_⟩
    exact List.inj_on_of_nodup_map h.hosts hp' hmem (h.host_eq ⟨p'.2, hp', hfd'⟩ hfd)
  threads p hp := ⟨h.nonempty p hp, h.active p hp⟩

lemma inv_init (listener : Fd) (others : Finset Fd) :
    (init listener others : Registry Host).Inv where
  hosts := List.nodup_nil
  ids := List.nodup_nil
  id_le p hp := absurd hp (by simp [init])
  active p hp := absurd hp (by simp [init])
  nonempty p hp := absurd hp (by simp [init])
  registered host fd := by
    simp only [Registered, init, List.not_mem_nil, false_and, exists_false, false_iff]
    split_ifs <;> simp
  listening := by simp [init]

/-- Nothing is removed as long as each thread has a client. -/
lemma removeOrphanThreads_eq_some {s t : Registry Host} :
    s.removeOrphanThreads = some t ↔ (∀ p ∈ s.threadsInfo, p.2.sockfds ≠ ∅) ∧ t = s := by
  rw [removeOrphanThreads]
  split_ifs with h
  · obtain ⟨p, hp, hempty⟩ := List.any_eq_true.mp h
    exact iff_of_false (by simp) fun hall => hall.1 p hp (by simpa using hempty)
  · refine ⟨fun heq => ⟨fun p hp hempty => h ?_, (Option.some.inj heq).symm⟩,
      fun heq => congrArg some heq.2.symm⟩
    exact List.any_eq_true.mpr ⟨p, hp, by simpa using hempty⟩

/-- The listening socket is no other descriptor. -/
lemma Inv.listener_ne {s : Registry Host} (h : s.Inv) {fd : Fd}
    (hfd : s.descriptors fd ≠ some .listener) : s.listener ≠ fd := by
  rintro rfl
  exact hfd h.listening

/-- The thread of a registered client is found. -/
lemma Inv.getThreadInfoBySockfd {s : Registry Host} (h : s.Inv) {host : Host} {fd : Fd}
    (hclient : s.descriptors fd = some (.client host)) :
    ∃ info, s.getThreadInfoBySockfd fd = some (host, info) := by
  obtain ⟨info, hmem, hfd⟩ := (h.registered host fd).mpr hclient
  have hsome : (s.threadsInfo.find? fun p => fd ∈ p.2.sockfds).isSome = true :=
    List.find?_isSome.mpr ⟨_, hmem, by simpa using hfd⟩
  obtain ⟨⟨host', info'⟩, hfind⟩ := Option.isSome_iff_exists.mp hsome
  have hfd' : fd ∈ info'.sockfds := by simpa using List.find?_some hfind
  obtain rfl := h.host_eq ⟨info', List.mem_of_find?_eq_some hfind, hfd'⟩ hclient
  exact ⟨info', by rw [Registry.getThreadInfoBySockfd, hfind]; rfl⟩

section

variable [LinearOrder Host]

lemma Keyed.updateSockfds {s : Registry Host} (h : s.Keyed) (host : Host)
    (f : Finset Fd → Finset Fd) (descriptors : Fd → Option (Descriptor Host)) :
    Keyed { s with
      threadsInfo := Registry.updateSockfds s.threadsInfo host f
      descriptors := descriptors } where
  hosts := by simpa [Registry.updateSockfds, Function.comp_def] using h.hosts
  ids := by simpa [Registry.updateSockfds, Function.comp_def] using h.ids
  id_le p hp := by
    obtain ⟨p, hmem, rfl⟩ := List.mem_map.mp hp
    exact h.id_le p hmem
  active p hp := by
    obtain ⟨p, hmem, rfl⟩ := List.mem_map.mp hp
    exact h.active p hmem

lemma mem_updateSockfds (threads : List (Host × ThreadInfo)) (host : Host)
    (f : Finset Fd → Finset Fd) (host' : Host) (fd : Fd) :
    (∃ info, (host', info) ∈ updateSockfds threads host f ∧ fd ∈ info.sockfds) ↔
      ∃ info, (host', info) ∈ threads ∧
        fd ∈ if host' = host then f info.sockfds else info.sockfds := by
  constructor
  · rintro ⟨info, hmem, hfd⟩
    obtain ⟨⟨h, info'⟩, hmem', heq⟩ := List.mem_map.mp hmem
    injection heq with hhost hinfo
    subst hhost hinfo
    exact ⟨info', hmem', hfd⟩
  · rintro ⟨info, hmem, hfd⟩
    exact ⟨_, List.mem_map.mpr ⟨_, hmem, rfl⟩, hfd⟩

/-- After `getOrCreateThreadInfo` there is a thread for the host, and nothing else is
changed. -/
lemma Keyed.getOrCreateThreadInfo {s : Registry Host} (h : s.Keyed) (host : Host) :
    (s.getOrCreateThreadInfo host).Keyed ∧
      (∃ info, (host, info) ∈ (s.getOrCreateThreadInfo host).threadsInfo) ∧
      (∀ p ∈ (s.getOrCreateThreadInfo host).threadsInfo, p ∈ s.threadsInfo ∨ p.1 = host) ∧
      ∀ host' fd, (s.getOrCreateThreadInfo host).Registered host' fd ↔ s.Registered host' fd := by
  by_cases hhost : host ∈ s.threadsInfo.map Prod.fst
  · rw [Registry.getOrCreateThreadInfo, if_pos hhost]
    obtain ⟨⟨_, info⟩, hmem, rfl⟩ := List.mem_map.mp hhost
    exact ⟨h, ⟨info, hmem⟩, fun p hp => .inl hp, fun _ _ => .rfl⟩
  · rw [Registry.getOrCreateThreadInfo, if_neg hhost]
    have hperm := List.perm_orderedInsert (fun p p' : Host × ThreadInfo => p.1 ≤ p'.1)
      (host, ⟨s.threadIdSequencer + 1, ∅⟩) s.threadsInfo
    have hmem (p : Host × ThreadInfo) := hperm.mem_iff (a := p)
    have hids : s.threadIdSequencer + 1 ∉ s.threadsInfo.map (·.2.id) := by
      intro hid
      obtain ⟨p, hp, hid⟩ := List.mem_map.mp hid
      have := h.id_le p hp
      omega
    refine ⟨⟨?hosts, ?ids, ?id_le, ?active⟩, ⟨_, (hmem _).mpr List.mem_cons_self⟩, ?old, ?reg⟩
    case hosts => exact (hperm.map _).nodup_iff.mpr (List.nodup_cons.mpr ⟨hhost, h.hosts⟩)
    case ids => exact (hperm.map _).nodup_iff.mpr (List.nodup_cons.mpr ⟨hids, h.ids⟩)
    case id_le =>
      intro p hp
      rcases List.mem_cons.mp ((hmem p).mp hp) with rfl | hp
      · exact le_rfl
      · exact (h.id_le p hp).trans (Nat.le_succ _)
    case active =>
      intro p hp
      rcases List.mem_cons.mp ((hmem p).mp hp) with rfl | hp
      · exact Finset.mem_insert_self _ _
      · exact Finset.mem_insert_of_mem (h.active p hp)
    case old =>
      intro p hp
      rcases List.mem_cons.mp ((hmem p).mp hp) with rfl | hp
      · exact .inr rfl
      · exact .inl hp
    case reg =>
      intro host' fd
      constructor
      · rintro ⟨info, hinfo, hfd⟩
        rcases List.mem_cons.mp ((hmem _).mp hinfo) with heq | hinfo
        · injection heq with _ heq
          subst heq
          exact absurd hfd (Finset.notMem_empty fd)
        · exact ⟨info, hinfo, hfd⟩
      · rintro ⟨info, hinfo, hfd⟩
        exact ⟨info, (hmem _).mpr (List.mem_cons_of_mem _ hinfo), hfd⟩

/-- Getting a thread leaves the descriptors. -/
lemma descriptors_getOrCreateThreadInfo (s : Registry Host) (host : Host) :
    (s.getOrCreateThreadInfo host).descriptors = s.descriptors ∧
      (s.getOrCreateThreadInfo host).listener = s.listener := by
  rw [Registry.getOrCreateThreadInfo]
  split_ifs <;> exact ⟨rfl, rfl⟩

/-- The new client is registered at its host, and the others where they were. -/
lemma Inv.registered_addNewClient {s : Registry Host} (h : s.Inv) (host : Host) {infd : Fd}
    (hclosed : s.descriptors infd = none) (host' : Host) (fd : Fd) :
    (s.addNewClient host infd).Registered host' fd ↔
      (s.addNewClient host infd).descriptors fd = some (.client host') := by
  obtain ⟨-, ⟨info, hinfo⟩, -, hreg⟩ := h.toKeyed.getOrCreateThreadInfo host
  have hmem := mem_updateSockfds (s.getOrCreateThreadInfo host).threadsInfo host (insert infd)
    host' fd
  simp only [Registry.addNewClient, Registered, hmem,
    (s.descriptors_getOrCreateThreadInfo host).1]
  have hreg' := (hreg host' fd).trans (h.registered host' fd)
  simp only [Registered] at hreg'
  by_cases hfd : fd = infd
  · subst hfd
    rw [Function.update_self]
    constructor
    · rintro ⟨info', hinfo', hfd⟩
      by_cases hhost : host' = host
      · rw [hhost]
      · rw [if_neg hhost] at hfd
        rw [hclosed] at hreg'
        exact absurd (hreg'.mp ⟨info', hinfo', hfd⟩) (by simp)
    · intro heq
      injection heq with heq
      injection heq with heq
      subst heq
      exact ⟨info, hinfo, by simp⟩
  · rw [Function.update_of_ne hfd, ← hreg']
    refine exists_congr fun info' => and_congr_right fun _ => ?_
    split_ifs <;> simp [hfd]

/-- A new client is registered at the thread of its host. -/
lemma Inv.addNewClient {s : Registry Host} (h : s.Inv) (host : Host) {infd : Fd}
    (hclosed : s.descriptors infd = none) : (s.addNewClient host infd).Inv := by
  obtain ⟨hkeyed, -, hold, -⟩ := h.toKeyed.getOrCreateThreadInfo host
  refine ⟨hkeyed.updateSockfds host _ _, ?nonempty, h.registered_addNewClient host hclosed,
    ?listening⟩
  case nonempty =>
    intro p hp
    obtain ⟨p, hmem, rfl⟩ := List.mem_map.mp hp
    by_cases hhost : p.1 = host
    · simp [hhost]
    · rw [if_neg hhost]
      exact h.nonempty p ((hold p hmem).resolve_right hhost)
  case listening =>
    have hne : s.listener ≠ infd := h.listener_ne (by simp [hclosed])
    simp only [Registry.addNewClient, s.descriptors_getOrCreateThreadInfo host,
      Function.update_of_ne hne, h.listening]

/-- The state when a client is out of the set of its host and closed. -/
def closed (s : Registry Host) (host : Host) (fd : Fd) : Registry Host :=
  { s with
    threadsInfo := updateSockfds s.threadsInfo host fun fds => fds.erase fd
    descriptors := Function.update s.descriptors fd none }

/-- A client that is out of the set is unregistered, and no other one. -/
lemma Inv.registered_closed {s : Registry Host} (h : s.Inv) {host : Host} {fd : Fd}
    (hhost : s.descriptors fd = some (.client host)) (host' : Host) (fd' : Fd) :
    (s.closed host fd).Registered host' fd' ↔ s.Registered host' fd' ∧ fd' ≠ fd := by
  have hmem := mem_updateSockfds s.threadsInfo host (fun fds => fds.erase fd) host' fd'
  simp only [closed, Registered, hmem]
  constructor
  · rintro ⟨info', hinfo', hfd'⟩
    by_cases hsame : host' = host
    · rw [if_pos hsame, Finset.mem_erase] at hfd'
      exact ⟨⟨info', hinfo', hfd'.2⟩, hfd'.1⟩
    · rw [if_neg hsame] at hfd'
      refine ⟨⟨info', hinfo', hfd'⟩, ?_⟩
      rintro rfl
      exact hsame (h.host_eq ⟨info', hinfo', hfd'⟩ hhost)
  · rintro ⟨⟨info', hinfo', hfd'⟩, hne⟩
    refine ⟨info', hinfo', ?_⟩
    split_ifs
    · exact Finset.mem_erase.mpr ⟨hne, hfd'⟩
    · exact hfd'

/-- Each thread still has a client exactly when the host has another one. -/
lemma Inv.nonempty_closed_iff {s : Registry Host} (h : s.Inv) {host : Host} {fd : Fd}
    (hhost : s.descriptors fd = some (.client host)) :
    (∀ p ∈ (s.closed host fd).threadsInfo, p.2.sockfds ≠ ∅) ↔ s.HasOther fd := by
  obtain ⟨info, hinfo, hfd⟩ := (h.registered host fd).mpr hhost
  have hclosed : (host, { info with sockfds := info.sockfds.erase fd })
      ∈ (s.closed host fd).threadsInfo :=
    List.mem_map.mpr ⟨_, hinfo, by simp⟩
  constructor
  · intro hall
    obtain ⟨fd', hfd'⟩ := Finset.nonempty_iff_ne_empty.mpr (hall _ hclosed)
    obtain ⟨hne, hmem⟩ := Finset.mem_erase.mp hfd'
    exact ⟨host, fd', hne, hhost, (h.registered host fd').mp ⟨info, hinfo, hmem⟩⟩
  · rintro ⟨host', fd', hne, hclient, hclient'⟩ p hp
    obtain ⟨p₀, hp₀, rfl⟩ := List.mem_map.mp hp
    by_cases hsame : p₀.1 = host
    · obtain rfl : host = host' := h.host_eq ⟨info, hinfo, hfd⟩ hclient
      obtain ⟨info', hinfo', hfd'⟩ := (h.registered host fd').mpr hclient'
      obtain rfl : p₀ = (host, info') := List.inj_on_of_nodup_map h.hosts hp₀ hinfo' hsame
      simp only [if_pos]
      exact Finset.ne_empty_of_mem (Finset.mem_erase.mpr ⟨hne, hfd'⟩)
    · simp only [if_neg hsame]
      exact h.nonempty p₀ hp₀

/-- A removal is defined exactly when the host has another client; then the client is closed and
unregistered, and no other one. -/
lemma Inv.doRemoveClient_iff {s t : Registry Host} (h : s.Inv) {host : Host} {fd : Fd}
    (hhost : s.descriptors fd = some (.client host)) :
    s.doRemoveClient fd = some t ↔ s.HasOther fd ∧ t = s.closed host fd := by
  obtain ⟨info, hfind⟩ := h.getThreadInfoBySockfd hhost
  have hremove : s.doRemoveClient fd = (s.closed host fd).removeOrphanThreads := by
    simp only [Registry.doRemoveClient, hfind]
    rfl
  rw [hremove, removeOrphanThreads_eq_some, h.nonempty_closed_iff hhost]

/-- The removal of a client whose host has another one keeps the invariant. -/
lemma Inv.closed {s : Registry Host} (h : s.Inv) {host : Host} {fd : Fd}
    (hhost : s.descriptors fd = some (.client host)) (hother : s.HasOther fd) :
    (s.closed host fd).Inv := by
  refine ⟨h.toKeyed.updateSockfds host _ _, (h.nonempty_closed_iff hhost).mpr hother,
    fun host' fd' => ?registered, ?listening⟩
  case registered =>
    rw [h.registered_closed hhost, h.registered]
    by_cases hfd : fd' = fd
    · simp [Registry.closed, hfd]
    · simp [Registry.closed, hfd]
  case listening =>
    have hne : s.listener ≠ fd := h.listener_ne (by simp [hhost])
    exact (Function.update_of_ne hne ..).trans h.listening

/-- A removal does not close any other descriptor. -/
lemma descriptors_doRemoveClient_of_ne {s t : Registry Host} {fd fd' : Fd} (hne : fd' ≠ fd)
    (h : s.doRemoveClient fd = some t) : t.descriptors fd' = s.descriptors fd' := by
  rw [Registry.doRemoveClient] at h
  split at h
  · rw [Option.some.inj h]
  · obtain ⟨-, rfl⟩ := removeOrphanThreads_eq_some.mp h
    exact Function.update_of_ne hne _ _

/-- The close of a client, or the error of one that is taken from the right place, is right exactly
when the host has another client, and then it keeps the invariant. -/
lemma Inv.right_doRemoveClient_iff {s : Registry Host} (h : s.Inv) {a : Action Host} {fd : Fd}
    (hclient : s.IsClient fd)
    (ha : ∀ t, ClosesOnly s a t ↔ t.descriptors = Function.update s.descriptors fd none ∧
      ∀ host fd', t.Registered host fd' ↔ s.Registered host fd' ∧ fd' ≠ fd) :
    (Right (some s) a (s.doRemoveClient fd) ↔ s.HasOther fd) ∧
      (s.HasOther fd → ∃ t, s.doRemoveClient fd = some t ∧ t.Inv) := by
  obtain ⟨host, hhost⟩ := hclient
  have hiff (t : Registry Host) := h.doRemoveClient_iff (t := t) hhost
  have hkeeps (hother : s.HasOther fd) := h.closed hhost hother
  constructor
  · constructor
    · intro hright
      cases hremove : s.doRemoveClient fd with
      | none =>
          rw [hremove] at hright
          exact absurd hright id
      | some t => exact ((hiff t).mp hremove).1
    · intro hother
      rw [(hiff _).mpr ⟨hother, rfl⟩]
      exact ⟨(ha _).mpr ⟨rfl, h.registered_closed hhost⟩, (hkeeps hother).sound⟩
  · exact fun hother => ⟨_, (hiff _).mpr ⟨hother, rfl⟩, hkeeps hother⟩

/-- A step from a state with the invariant is right exactly when it is harmless, and then it keeps
the invariant. -/
lemma Inv.step {s : Registry Host} {t : Option (Registry Host)} {a : Action Host} (h : s.Inv)
    (hstep : Step (some s) a t) :
    (Right (some s) a t ↔ Harmless (some s) a) ∧
      (Harmless (some s) a → ∃ t', t = some t' ∧ t'.Inv) := by
  obtain ⟨hpossible, rfl⟩ := hstep
  cases a with
  | accept host infd =>
      have hevents : Inv { s with events := Function.update s.events 0 s.listener } :=
        ⟨⟨h.hosts, h.ids, h.id_le, h.active⟩, h.nonempty, h.registered, h.listening⟩
      have hinv := hevents.addNewClient host hpossible.2
      exact ⟨iff_of_true ⟨trivial, hinv.sound⟩ trivial, fun _ => ⟨_, rfl, hinv⟩⟩
  | peerClose fd => exact h.right_doRemoveClient_iff hpossible fun _ => .rfl
  | error i fd =>
      by_cases hsame : s.events i = fd
      · obtain ⟨hright, hkeeps⟩ := h.right_doRemoveClient_iff (a := .error i fd) hpossible.1
          fun _ => .rfl
        rw [handle, hsame]
        exact ⟨hright.trans (and_iff_right hsame).symm, fun hharmless => hkeeps hharmless.2⟩
      · refine ⟨iff_of_false (fun hright => ?_) fun hharmless => hsame hharmless.1,
          fun hharmless => absurd hharmless.1 hsame⟩
        -- the descriptor of the error stays open
        rw [handle] at hright
        cases hremove : s.doRemoveClient (s.events i) with
        | none =>
            rw [hremove] at hright
            exact hright
        | some t =>
            rw [hremove] at hright
            obtain ⟨⟨hdescriptors, -⟩, -⟩ := hright
            have hopen := congrFun hdescriptors fd
            obtain ⟨host, hhost⟩ := hpossible.1
            rw [Function.update_self, descriptors_doRemoveClient_of_ne (Ne.symm hsame) hremove,
              hhost] at hopen
            exact absurd hopen (by simp)

/-- The server has done nothing undefined and its state has the invariant. -/
def OptionInv (s : Option (Registry Host)) : Prop := ∃ s', s = some s' ∧ s'.Inv

end

end Registry

open Registry

/-- **The registry of the server.**  In a run of the server, nothing undefined is done, every state
is sound and every close or error closes and unregisters its own descriptor only, if and only if
every close or error is for a client whose host has another one, and every error event comes at a
place at which the events of the server, not those of the thread, have the descriptor of the
error. -/
theorem registry_right_iff {Host : Type*} [LinearOrder Host] (listener : Fd) (others : Finset Fd)
    (as : List (Action Host)) (s : Option (Registry Host)) :
    Run (With Right Registry.Step) (some (init listener others)) as s ↔
      Run (When Harmless Registry.Step) (some (init listener others)) as s := by
  refine Run.with_iff_when (I := OptionInv) ?_ ?_ ⟨_, rfl, inv_init listener others⟩
  · rintro _ a t ⟨s, rfl, hs⟩ hharmless hst
    exact (hs.step hst).2 hharmless
  · rintro _ a t ⟨s, rfl, hs⟩ hst
    exact (hs.step hst).1

/-- A client has connected, and an error event for it is the first of the events of its
thread: the listener is closed, and the client stays open. -/
theorem not_registry_right :
    ¬ ∀ (listener : Fd) (others : Finset Fd) (as : List (Action String))
      (s : Option (Registry String)),
      Run Registry.Step (some (init listener others)) as s →
      Run (With Right Registry.Step) (some (init listener others)) as s := by
  intro h
  let s₀ : Registry String := init 3 {0, 1, 2}
  let s₁ := { s₀ with events := Function.update s₀.events 0 3 }.addNewClient "10.0.0.6" 5
  have hclient : s₁.descriptors 5 = some (.client "10.0.0.6") := rfl
  have haccept : Registry.Step (some s₀) (.accept "10.0.0.6" 5) (some s₁) := ⟨⟨rfl, rfl⟩, rfl⟩
  have herror : Registry.Step (some s₁) (.error 0 5) (s₁.doRemoveClient 3) :=
    ⟨⟨⟨_, hclient⟩, by decide⟩, rfl⟩
  have hrun := h 3 {0, 1, 2} _ _ ((Run.single haccept).snoc herror)
  obtain ⟨m, ⟨haccepted, -⟩, hlast⟩ := hrun.cons_inv
  obtain rfl : m = some s₁ := haccepted.2
  obtain ⟨m, ⟨-, hright⟩, hnil⟩ := hlast.cons_inv
  obtain rfl := hnil.nil_inv
  cases hremove : s₁.doRemoveClient 3 with
  | none =>
      rw [hremove] at hright
      exact hright
  | some t =>
      rw [hremove] at hright
      have hclosed := congrFun hright.1.1 5
      rw [descriptors_doRemoveClient_of_ne (by decide) hremove, hclient,
        Function.update_self] at hclosed
      exact absurd hclosed (by simp)

end FtThesis
