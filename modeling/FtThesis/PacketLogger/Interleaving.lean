/-
Store and delete requests of the packet logger that run at the same time.

A request is a sequence of sections, each under a lock: a store looks up or creates the
record of its base and then adds its fragment; a delete looks the record up, clears it,
and takes it out of the map.

* `PacketSections`, `Phase`: the record of one base, and how far the requests have come;
* `step`: one section of a request;
* `NoneLost`, `OnCurrent`: what is to hold of a state and of a step;
* `Unheld`: a condition on the steps, and `Inv`, the invariant that it keeps;
* `noneLost_of_unheld`: in a run that meets the condition no stored fragment is lost;
* `run_store`, `run_delete`: requests that run alone are those of `PacketLoggerServer`.
-/
import FtThesis.Library.Runs
import FtThesis.PacketLogger.Server

namespace FtThesis

open Transition

/-- How far a request has come, with the address of the record that it has looked up. -/
inductive Phase
  | idle
  | storing (wpd : WrappedPacketData) (packetVersions : ℕ)
  | stored (wpd : WrappedPacketData)
  | deleting (packId : PacketId) (packetVersions : ℕ)
  | erasing (packetVersions : ℕ)
  | deleted (result : Bool)

/-- The address that a request keeps for its next section. -/
def Phase.holds : Phase → Option ℕ
  | storing _ packetVersions | deleting _ packetVersions | erasing packetVersions =>
      some packetVersions
  | _ => none

/-- A `PacketVersionsData` in memory: its fragments, each with the request that stored it,
and their number. -/
structure SharedVersions where
  packetVersions : List (ℕ × SinglePacketVersionData)
  index : UInt8

/-- The state of the packet logger, as far as one base is concerned: the address that the
map holds for the base, the records by their addresses, the next new address, and the
requests; and the fragments that were cleared. -/
structure PacketSections where
  packetIdBase : PacketBase
  packetsVersions : Option ℕ
  memory : ℕ → SharedVersions
  nextAddress : ℕ
  requests : ℕ → Phase
  cleared : List (ℕ × SinglePacketVersionData)

namespace PacketSections

/-- The packet logger without a record of the base. -/
def new (b : PacketBase) : PacketSections := ⟨b, none, fun _ => ⟨[], 0⟩, 0, fun _ => .idle, []⟩

/-- The request has come to the given phase. -/
def setRequest (s : PacketSections) (r : ℕ) (p : Phase) : PacketSections :=
  { s with requests := Function.update s.requests r p }

/-! ### The sections -/

/-- The sections of a store (`getOrCreateServerProgressData`, the locked part of
`addPacketVersion`) and of a delete (the three locked parts of `deletePacket`), each with
the number of the request. -/
inductive Section
  | getOrCreate (r : ℕ) (wpd : WrappedPacketData)
  | addVersion (r : ℕ)
  | lookup (r : ℕ) (packId : PacketId)
  | clear (r : ℕ)
  | erase (r : ℕ)

/-- `getOrCreateServerProgressData`. -/
def getOrCreate (s : PacketSections) (r : ℕ) (wpd : WrappedPacketData) : PacketSections :=
  match s.packetsVersions with
  | none =>
      { s with
        packetsVersions := some s.nextAddress
        memory := Function.update s.memory s.nextAddress ⟨[], 0⟩
        nextAddress := s.nextAddress + 1 }.setRequest r (.storing wpd s.nextAddress)
  | some pvd => s.setRequest r (.storing wpd pvd)

/-- The locked part of `addPacketVersion`, after which the store answers success. -/
def addVersion (s : PacketSections) (r : ℕ) (wpd : WrappedPacketData) (pvd : ℕ) :
    PacketSections :=
  let versions := s.memory pvd
  { s with
    memory := Function.update s.memory pvd
      ⟨versions.packetVersions ++ [(r, wpd.fragment)], versions.index + 1⟩ }.setRequest r
    (.stored wpd)

/-- The first locked part of `deletePacket`. -/
def lookup (s : PacketSections) (r : ℕ) (packId : PacketId) : PacketSections :=
  match s.packetsVersions with
  | none => s.setRequest r (.deleted true)
  | some pvd => s.setRequest r (.deleting packId pvd)

/-- The second locked part of `deletePacket`: partial versions are not deleted; else the
fragments are cleared, but not their number, and the record is freed. -/
def clear (s : PacketSections) (r : ℕ) (packId : PacketId) (pvd : ℕ) : PacketSections :=
  let versions := s.memory pvd
  if version packId < versions.index.toNat then s.setRequest r (.deleted false)
  else
    { s with
      memory := Function.update s.memory pvd ⟨[], versions.index⟩
      cleared := s.cleared ++ versions.packetVersions }.setRequest r (.erasing pvd)

/-- The third locked part of `deletePacket`. -/
def erase (s : PacketSections) (r : ℕ) : PacketSections :=
  { s with packetsVersions := none }.setRequest r (.deleted true)

/-- One section of a request runs.  A request begins with its first section, for a packet
of the base. -/
def step (s : PacketSections) : Section → Option PacketSections
  | .getOrCreate r wpd =>
      match s.requests r with
      | .idle => if base wpd.packetId = s.packetIdBase then some (s.getOrCreate r wpd) else none
      | _ => none
  | .addVersion r =>
      match s.requests r with
      | .storing wpd pvd => some (s.addVersion r wpd pvd)
      | _ => none
  | .lookup r packId =>
      match s.requests r with
      | .idle => if base packId = s.packetIdBase then some (s.lookup r packId) else none
      | _ => none
  | .clear r =>
      match s.requests r with
      | .deleting packId pvd => some (s.clear r packId pvd)
      | _ => none
  | .erase r =>
      match s.requests r with
      | .erasing _ => some (s.erase r)
      | _ => none

/-! ### What is to hold -/

/-- No request is between two of its sections. -/
def Quiet (s : PacketSections) : Prop := ∀ r, (s.requests r).holds = none

/-- The fragment that a store of `wpd` has added as request `r` is in the record that the map
holds, or was cleared by a delete. -/
def Kept (s : PacketSections) (r : ℕ) (wpd : WrappedPacketData) : Prop :=
  (r, wpd.fragment) ∈ s.cleared ∨
    ∃ pvd, s.packetsVersions = some pvd ∧ (r, wpd.fragment) ∈ (s.memory pvd).packetVersions

/-- When no request is running, the fragment of each store that answered success is in the
record of the base or was cleared. -/
def NoneLost (s : PacketSections) : Prop :=
  s.Quiet → ∀ r wpd, s.requests r = .stored wpd → s.Kept r wpd

/-- The section adds to, clears or erases no record other than the one that the map holds. -/
def OnCurrent (s : PacketSections) : Section → Prop
  | .addVersion r | .clear r | .erase r =>
      ∀ pvd, (s.requests r).holds = some pvd → s.packetsVersions = some pvd
  | _ => True

/-! ### A condition on the steps -/

/-- No request looks the record up between its clearing and its erasing, and no record is
cleared while another request holds it. -/
def Unheld (s : PacketSections) : Section → Prop
  | .getOrCreate _ _ | .lookup _ _ => ∀ r pvd, s.requests r ≠ .erasing pvd
  | .clear r => ∀ packId pvd, s.requests r = .deleting packId pvd →
      (s.memory pvd).index.toNat ≤ version packId →
        ∀ r', r' ≠ r → (s.requests r').holds ≠ some pvd
  | _ => True

/-- What holds in every run whose steps meet `Unheld`. -/
structure Inv (s : PacketSections) : Prop where
  holds : ∀ r pvd, (s.requests r).holds = some pvd → s.packetsVersions = some pvd
  erasing : ∀ r pvd, s.requests r = .erasing pvd →
    (s.memory pvd).packetVersions = [] ∧ ∀ r', r' ≠ r → (s.requests r').holds = none
  kept : ∀ r wpd, s.requests r = .stored wpd → s.Kept r wpd

lemma inv_new (b : PacketBase) : Inv (new b) where
  holds r pvd h := by cases h
  erasing r pvd h := by cases h
  kept r wpd h := by cases h

variable {s t : PacketSections} {r : ℕ} {wpd : WrappedPacketData} {packId : PacketId} {pvd : ℕ}

@[simp] lemma packetsVersions_setRequest (s : PacketSections) (r : ℕ) (p : Phase) :
    (s.setRequest r p).packetsVersions = s.packetsVersions := rfl

@[simp] lemma memory_setRequest (s : PacketSections) (r : ℕ) (p : Phase) :
    (s.setRequest r p).memory = s.memory := rfl

/-- The invariant after a request has come to a phase `p`: what is asked of `p`, and what of
the other requests. -/
lemma inv_setRequest {p : Phase}
    (hp : ∀ pvd, p.holds = some pvd → s.packetsVersions = some pvd)
    (herasing : ∀ pvd, p = .erasing pvd →
      (s.memory pvd).packetVersions = [] ∧ ∀ r', r' ≠ r → (s.requests r').holds = none)
    (hstored : ∀ wpd, p = .stored wpd → s.Kept r wpd)
    (hholds : ∀ r' pvd, r' ≠ r → (s.requests r').holds = some pvd → s.packetsVersions = some pvd)
    (hothers : ∀ r' pvd, r' ≠ r → s.requests r' ≠ .erasing pvd)
    (hkept : ∀ r' wpd, r' ≠ r → s.requests r' = .stored wpd → s.Kept r' wpd) :
    Inv (s.setRequest r p) := by
  have hself : (s.setRequest r p).requests r = p := Function.update_self ..
  have hother : ∀ r', r' ≠ r → (s.setRequest r p).requests r' = s.requests r' :=
    fun r' hne => Function.update_of_ne hne ..
  refine ⟨fun r' pvd h => ?_, fun r' pvd h => ?_, fun r' wpd h => ?_⟩
  · rcases eq_or_ne r' r with rfl | hne
    · exact hp pvd (hself ▸ h)
    · exact hholds r' pvd hne (hother r' hne ▸ h)
  · rcases eq_or_ne r' r with rfl | hne
    · obtain ⟨hnil, halone⟩ := herasing pvd (hself ▸ h)
      exact ⟨hnil, fun r'' hne => hother r'' hne ▸ halone r'' hne⟩
    · exact absurd (hother r' hne ▸ h) (hothers r' pvd hne)
  · rcases eq_or_ne r' r with rfl | hne
    · exact hstored wpd (hself ▸ h)
    · exact hkept r' wpd hne (hother r' hne ▸ h)

/-- While a request holds the record, no other one is about to erase it. -/
lemma Inv.ne_erasing (hs : Inv s) (hr : (s.requests r).holds = some pvd) :
    ∀ r' pvd', r' ≠ r → s.requests r' ≠ .erasing pvd' := by
  intro r' pvd' hne h
  rw [(hs.erasing r' pvd' h).2 r hne.symm] at hr
  cases hr

lemma Inv.getOrCreate (hs : Inv s) (hun : ∀ r pvd, s.requests r ≠ .erasing pvd) :
    Inv (s.getOrCreate r wpd) := by
  rw [PacketSections.getOrCreate]
  split
  next hnone =>
    -- nobody holds a record, and what was stored is cleared
    refine inv_setRequest (fun pvd h => h) nofun nofun (fun r' pvd _ h => ?_)
      (fun r' pvd _ => hun r' pvd) (fun r' wpd' _ h => ?_)
    · rw [hs.holds r' pvd h] at hnone
      cases hnone
    · rcases hs.kept r' wpd' h with hcl | ⟨pvd, hmap, -⟩
      · exact .inl hcl
      · rw [hmap] at hnone
        cases hnone
  next pvd hsome =>
    exact inv_setRequest (fun pvd' h => hsome.trans h) nofun nofun
      (fun r' pvd _ h => hs.holds r' pvd h) (fun r' pvd _ => hun r' pvd)
      (fun r' wpd' _ h => hs.kept r' wpd' h)

lemma Inv.addVersion (hs : Inv s) (hr : s.requests r = .storing wpd pvd) :
    Inv (s.addVersion r wpd pvd) := by
  have hholds : (s.requests r).holds = some pvd := by rw [hr]; rfl
  have hmap := hs.holds r pvd hholds
  rw [PacketSections.addVersion]
  refine inv_setRequest nofun nofun (fun wpd' h => ?_) (fun r' pvd _ h => hs.holds r' pvd h)
    (hs.ne_erasing hholds) (fun r' wpd' _ h => ?_)
  · cases h
    exact .inr ⟨pvd, hmap, by simp⟩
  · rcases hs.kept r' wpd' h with hcl | ⟨pvd', hmap', hmem⟩
    · exact .inl hcl
    · obtain rfl : pvd = pvd' := Option.some.inj (hmap.symm.trans hmap')
      exact .inr ⟨pvd, hmap, by simp [hmem]⟩

lemma Inv.lookup (hs : Inv s) (hun : ∀ r pvd, s.requests r ≠ .erasing pvd) :
    Inv (s.lookup r packId) := by
  rw [PacketSections.lookup]
  split
  next =>
    exact inv_setRequest nofun nofun nofun (fun r' pvd _ h => hs.holds r' pvd h)
      (fun r' pvd _ => hun r' pvd) (fun r' wpd' _ h => hs.kept r' wpd' h)
  next pvd hsome =>
    exact inv_setRequest (fun pvd' h => hsome.trans h) nofun nofun
      (fun r' pvd _ h => hs.holds r' pvd h) (fun r' pvd _ => hun r' pvd)
      (fun r' wpd' _ h => hs.kept r' wpd' h)

lemma Inv.clear (hs : Inv s) (hr : s.requests r = .deleting packId pvd)
    (hun : (s.memory pvd).index.toNat ≤ version packId →
      ∀ r', r' ≠ r → (s.requests r').holds ≠ some pvd) :
    Inv (s.clear r packId pvd) := by
  have hholds : (s.requests r).holds = some pvd := by rw [hr]; rfl
  have hmap := hs.holds r pvd hholds
  simp only [PacketSections.clear]
  split_ifs with hpartial
  · exact inv_setRequest nofun nofun nofun (fun r' pvd _ h => hs.holds r' pvd h)
      (hs.ne_erasing hholds) (fun r' wpd' _ h => hs.kept r' wpd' h)
  · have halone : ∀ r', r' ≠ r → (s.requests r').holds = none := by
      intro r' hne
      rw [Option.eq_none_iff_forall_ne_some]
      intro pvd' h
      obtain rfl : pvd = pvd' := Option.some.inj (hmap.symm.trans (hs.holds r' pvd' h))
      exact hun (not_lt.mp hpartial) r' hne h
    refine inv_setRequest (fun pvd' h => hmap.trans h) (fun pvd' h => ?_) nofun
      (fun r' pvd _ h => hs.holds r' pvd h) (hs.ne_erasing hholds) (fun r' wpd' _ h => ?_)
    · cases h
      exact ⟨by simp, halone⟩
    · -- what was in the record is now among the cleared fragments
      rcases hs.kept r' wpd' h with hcl | ⟨pvd', hmap', hmem⟩
      · exact .inl (List.mem_append_left _ hcl)
      · obtain rfl : pvd = pvd' := Option.some.inj (hmap.symm.trans hmap')
        exact .inl (List.mem_append_right _ hmem)

lemma Inv.erase (hs : Inv s) (hr : s.requests r = .erasing pvd) : Inv (s.erase r) := by
  have hmap := hs.holds r pvd (by rw [hr]; rfl)
  obtain ⟨hnil, halone⟩ := hs.erasing r pvd hr
  rw [PacketSections.erase]
  refine inv_setRequest nofun nofun nofun (fun r' pvd' hne h => ?_) (fun r' pvd' hne h => ?_)
    (fun r' wpd' _ h => ?_)
  · rw [halone r' hne] at h
    cases h
  · have hnone := halone r' hne
    rw [show s.requests r' = .erasing pvd' from h] at hnone
    cases hnone
  · rcases hs.kept r' wpd' h with hcl | ⟨pvd', hmap', hmem⟩
    · exact .inl hcl
    · obtain rfl : pvd = pvd' := Option.some.inj (hmap.symm.trans hmap')
      rw [hnil] at hmem
      cases hmem

/-! ### Runs -/

lemma inv_step {a : Section} (hs : Inv s) (hun : Unheld s a) (h : step s a = some t) :
    Inv t := by
  cases a with
  | getOrCreate r wpd =>
      simp only [step] at h
      split at h
      · split_ifs at h
        cases h
        exact hs.getOrCreate hun
      · cases h
  | addVersion r =>
      simp only [step] at h
      split at h
      next hr =>
        cases h
        exact hs.addVersion hr
      · cases h
  | lookup r packId =>
      simp only [step] at h
      split at h
      · split_ifs at h
        cases h
        exact hs.lookup hun
      · cases h
  | clear r =>
      simp only [step] at h
      split at h
      next hr =>
        cases h
        exact hs.clear hr (hun _ _ hr)
      · cases h
  | erase r =>
      simp only [step] at h
      split at h
      next hr =>
        cases h
        exact hs.erase hr
      · cases h

lemma Inv.onCurrent (hs : Inv s) (a : Section) : OnCurrent s a := by
  cases a with
  | addVersion r | clear r | erase r => exact hs.holds r
  | getOrCreate | lookup => exact trivial

/-- **No stored fragment is lost.**  In a run in which no request looks the record up between
its clearing and its erasing, and no record is cleared while another request holds it, each
section works on the record that the map holds, and no fragment is lost. -/
theorem noneLost_of_unheld {b : PacketBase} {as : List Section}
    (h : Run (When Unheld (Fires step)) (new b) as s) :
    Run (With (fun s a _ => OnCurrent s a) (Fires step)) (new b) as s ∧ s.NoneLost := by
  have hinv : ∀ {as s}, Run (When Unheld (Fires step)) (new b) as s → Inv s := fun h =>
    h.invariant (fun s a t hs hst => inv_step hs hst.1 hst.2) (inv_new b)
  refine ⟨?_, fun _ => (hinv h).kept⟩
  induction h with
  | nil => exact .nil
  | snoc h' hst ih => exact ih.snoc ⟨hst.2, (hinv h').onCurrent _⟩

/-- One byte of version `0` of the packet with base `0`. -/
def oneByte : WrappedPacketData := ⟨0, 0, 1, [9], rfl⟩

/-- Two stores whose sections overlap with each other and with those of a delete, which finds too
many versions, and then a delete of both. -/
theorem noneLost_storesDeletes : ∃ s,
    Run (With (fun s a _ => OnCurrent s a) (Fires step)) (new 0)
      [.getOrCreate 0 oneByte, .lookup 1 0, .getOrCreate 2 oneByte, .addVersion 0, .addVersion 2,
        .clear 1, .lookup 3 2, .clear 3, .erase 3] s ∧
    s.NoneLost ∧ s.requests 1 = .deleted false ∧ s.cleared.map Prod.fst = [0, 2] := by
  obtain ⟨s, hrun, hpartial, hcleared⟩ : ∃ s, Run (When Unheld (Fires step)) (new 0)
      [.getOrCreate 0 oneByte, .lookup 1 0, .getOrCreate 2 oneByte, .addVersion 0, .addVersion 2,
        .clear 1, .lookup 3 2, .clear 3, .erase 3] s ∧
      s.requests 1 = .deleted false ∧ s.cleared.map Prod.fst = [0, 2] := by
    refine ⟨_, .cons ⟨?_, rfl⟩ (.cons ⟨?_, rfl⟩ (.cons ⟨?_, rfl⟩ (.cons ⟨?_, rfl⟩ (.cons ⟨?_, rfl⟩
      (.cons ⟨?_, rfl⟩ (.cons ⟨?_, rfl⟩ (.cons ⟨?_, rfl⟩ (.single ⟨?_, rfl⟩)))))))), rfl, rfl⟩
    · exact fun r pvd => nofun
    · exact fun | 0, _ => nofun | r + 1, _ => nofun
    · exact fun | 0, _ => nofun | 1, _ => nofun | r + 2, _ => nofun
    · exact trivial
    · exact trivial
    · -- two fragments are too many for the version `0`
      intro packId pvd hr hle
      cases hr
      exact absurd hle (by decide)
    · exact fun | 0, _ => nofun | 1, _ => nofun | 2, _ => nofun | r + 3, _ => nofun
    · intro packId pvd hr hle
      exact fun | 0, _ => nofun | 1, _ => nofun | 2, _ => nofun | 3, h => absurd rfl h
                | r + 4, _ => nofun
    · exact trivial
  obtain ⟨hsections, hnone⟩ := noneLost_of_unheld hrun
  exact ⟨s, hsections, hnone, hpartial, hcleared⟩

/-- A store that has looked the record up before a delete clears it adds its fragment to a
record that nobody finds any more. -/
theorem not_noneLost_of_erased :
    ¬ ∀ b as s, Run (Fires step) (new b) as s →
      Run (With (fun s a _ => OnCurrent s a) (Fires step)) (new b) as s ∧ s.NoneLost := by
  intro h
  obtain ⟨-, hnone⟩ := h 0 [.getOrCreate 0 oneByte, .addVersion 0, .lookup 1 1,
    .getOrCreate 2 oneByte, .clear 1, .erase 1, .addVersion 2] _ (.of_foldlM rfl)
  rcases hnone (fun | 0 => rfl | 1 => rfl | 2 => rfl | r + 3 => rfl) 2 oneByte rfl with
    hcl | ⟨pvd, hmap, -⟩
  · have hfirst : (2, oneByte.fragment) ∈ [(0, oneByte.fragment)] := hcl
    simp at hfirst
  · cases hmap

/-! ### Requests that run alone -/

/-- The record of the base. -/
def record (s : PacketSections) : Option PacketVersionsData :=
  s.packetsVersions.map fun pvd =>
    ⟨(s.memory pvd).packetVersions.map Prod.snd, (s.memory pvd).index⟩

/-- A store looks up a record that is as before, or empty. -/
lemma getOrCreate_spec (s : PacketSections) (r : ℕ) (wpd : WrappedPacketData) :
    ∃ pvd, (s.getOrCreate r wpd).requests r = .storing wpd pvd ∧
      (s.getOrCreate r wpd).packetsVersions = some pvd ∧
      (s.getOrCreate r wpd).record = some (s.record.getD ⟨[], 0⟩) := by
  cases hmap : s.packetsVersions with
  | none => simp [getOrCreate, setRequest, record, hmap]
  | some pvd => simp [getOrCreate, setRequest, record, hmap]

lemma record_addVersion (hmap : s.packetsVersions = some pvd) :
    (s.addVersion r wpd pvd).record =
      s.record.map fun versions => PacketLoggerServer.addPacketVersion versions wpd := by
  simp [record, addVersion, hmap, PacketLoggerServer.addPacketVersion]

/-- The sections of a store, one after the other, do what `processStoreRequest` does. -/
lemma run_store {server : PacketLoggerServer} (hr : s.requests r = .idle)
    (hbase : base wpd.packetId = s.packetIdBase)
    (hrecord : s.record = server.packetsVersions s.packetIdBase) :
    ∃ t, Run (Fires step) s [.getOrCreate r wpd, .addVersion r] t ∧
      t.requests r = .stored wpd ∧
      t.record = (server.processStoreRequest wpd).packetsVersions s.packetIdBase := by
  obtain ⟨pvd, hstoring, hmap, hfound⟩ := getOrCreate_spec s r wpd
  have hfirst : step s (.getOrCreate r wpd) = some (s.getOrCreate r wpd) := by
    simp [step, hr, hbase]
  have hsecond : step (s.getOrCreate r wpd) (.addVersion r) =
      some ((s.getOrCreate r wpd).addVersion r wpd pvd) := by
    simp [step, hstoring]
  refine ⟨_, .cons hfirst (.cons hsecond .nil), Function.update_self .., ?_⟩
  rw [record_addVersion hmap, hfound, hrecord, PacketLoggerServer.processStoreRequest, hbase]
  simp

/-- The sections of a delete, one after the other, do what `deletePacket` does. -/
lemma run_delete {server : PacketLoggerServer} (hr : s.requests r = .idle)
    (hbase : base packId = s.packetIdBase)
    (hrecord : s.record = server.packetsVersions s.packetIdBase) :
    ∃ as t, Run (Fires step) s (.lookup r packId :: as) t ∧
      t.requests r = .deleted (server.deletePacket packId).1 ∧
      t.record = (server.deletePacket packId).2.packetsVersions s.packetIdBase := by
  have hfirst : step s (.lookup r packId) = some (s.lookup r packId) := by
    simp [step, hr, hbase]
  cases hmap : s.packetsVersions with
  | none =>
      have hnone : s.record = none := by rw [record, hmap]; rfl
      have hdelete : server.deletePacket packId = (true, server) := by
        simp [PacketLoggerServer.deletePacket, hbase, ← hrecord, hnone]
      refine ⟨[], _, .single hfirst, ?_, ?_⟩
      · simp [lookup, hmap, hdelete, setRequest]
      · rw [hdelete, ← hrecord, lookup, hmap]
        rfl
  | some pvd =>
      have hsome : s.record = some ⟨(s.memory pvd).packetVersions.map Prod.snd,
          (s.memory pvd).index⟩ := by
        rw [record, hmap]
        rfl
      have hsecond : step (s.lookup r packId) (.clear r) =
          some ((s.setRequest r (.deleting packId pvd)).clear r packId pvd) := by
        simp [step, lookup, hmap, setRequest]
      by_cases hpartial : version packId < (s.memory pvd).index.toNat
      · have hdelete : server.deletePacket packId = (false, server) := by
          simp [PacketLoggerServer.deletePacket, hbase, ← hrecord, hsome, hpartial]
        refine ⟨[.clear r], _, .cons hfirst (.single hsecond), ?_, ?_⟩
        · simp [clear, hpartial, hdelete, setRequest]
        · rw [hdelete, ← hrecord]
          simp [clear, hpartial, record]
      · have hdelete : server.deletePacket packId =
            (true, ⟨Function.update server.packetsVersions s.packetIdBase none⟩) := by
          simp [PacketLoggerServer.deletePacket, hbase, ← hrecord, hsome, hpartial]
        have hthird : step ((s.setRequest r (.deleting packId pvd)).clear r packId pvd) (.erase r) =
            some (((s.setRequest r (.deleting packId pvd)).clear r packId pvd).erase r) := by
          simp [step, clear, hpartial, setRequest]
        refine ⟨[.clear r, .erase r], _, .cons hfirst (.cons hsecond (.single hthird)), ?_, ?_⟩
        · simp [erase, hdelete, setRequest]
        · rw [hdelete]
          simp [erase, record]

end PacketSections

end FtThesis
