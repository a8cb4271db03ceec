/-
Do the two sides of the wire format of determinants agree byte by byte?

The receiver works with a cursor, and the bytes that pad an entry of `spalList` are never
written.

* `gpalCodec_uses`, `spalCodec_uses`: the bytes of an entry that are written and read;
* `deserializeGPals`, `deserializeSPals`, `deserializeMsg`: the receiver with its cursor, and
  with what it reads;
* `definite_serialize`: which bytes the sender writes;
* `deserializeMsg_serialize`: what the receiver reads are bytes that the sender wrote, up to
  the reported length;
* `deserializeMsg_of_written`: so the receiver of these bytes gets the same manager.
-/
import FtThesis.DetLogger.PalsManager
import FtThesis.Library.Scans

namespace FtThesis

open Memory

/-- All bytes of a gpal are used. -/
lemma gpalCodec_uses : gpalCodec.Uses 52 := (word16_uses.prod (bytes_uses 50)).map _

/-- The last two bytes of a spal are not used. -/
lemma spalCodec_uses : spalCodec.Uses 6 := ((word16_uses.prod word32_uses).map _).pad 2

namespace PALSManager

/-! ### The receiver -/

/-- `deserializeGPals`, which returns its cursor. -/
def deserializeGPals : Scan (List Gpal) := scanCounted gpalCodec 52

/-- `deserializeSPals`, which returns its cursor. -/
def deserializeSPals : Scan (List Spal) := scanCounted spalCodec 6

/-- `deserialize`, with its cursor and what it reads. -/
def deserializeMsg : Scan (Option PALSManager) := do
  let mbId ← word16.scan 2
  let packId ← word64.scan 8
  let gps ← deserializeGPals
  let sps ← deserializeSPals
  pure <|
    if h : gps.length ≤ palsSize ∧ sps.length ≤ palsSize then
      some ⟨mbId, packId, gps, sps, h.1, h.2⟩
    else none

/-- The receiver makes of a buffer what `deserialize` does. -/
lemma value_deserializeMsg (m : Mem) : (deserializeMsg m 0).value = deserialize m := by
  simp only [deserializeMsg, Scan.bind_apply, Scan.pure_apply, deserializeGPals, deserializeSPals,
    scanCounted_apply]
  rfl

lemma faithful_deserializeMsg : deserializeMsg.Faithful :=
  word16_uses.faithful_scan.bind fun _ => word64_uses.faithful_scan.bind fun _ =>
    gpalCodec_uses.faithful_scanCounted.bind fun _ =>
      spalCodec_uses.faithful_scanCounted.bind fun _ => Scan.faithful_pure _

/-! ### What the sender writes -/

section

variable (pm : PALSManager)

/-- The fields in front of the two lists. -/
def serializeHeader (m : Mem) : Mem := word64.put pm.packetId (word16.put pm.middleboxId m 0) 2

lemma serialize_eq (m : Mem) :
    pm.serialize m = pm.serializeSPals (pm.serializeGPals (pm.serializeHeader m) 10)
      (12 + pm.gpalList.length * 52) := rfl

/-- The sender writes each byte to what the manager says, or leaves it. -/
lemma definite_serialize : Definite pm.serialize :=
  (definite_putCounted spalCodec_uses _ _).comp ((definite_putCounted gpalCodec_uses _ _).comp
    ((word64_uses.definite _ _).comp (word16_uses.definite _ _)))

/-- The sender writes no byte behind the reported length. -/
lemma lt_of_writes {q : ℕ} (h : Writes pm.serialize q) : q < pm.getSerializationLength := by
  obtain ⟨m, hm⟩ := h
  by_contra hle
  rw [getSerializationLength_eq] at hle
  refine hm ?_
  rw [serialize_eq, serializeSPals, serializeGPals, serializeHeader]
  rw [putCounted_frame _ _ _ (.inr (by simp; omega)),
    putCounted_frame _ _ _ (.inr (by simp; omega)),
    word64.put_frame _ _ _ _ (.inr (by simp [word64]; omega)),
    word16.put_frame _ _ _ _ (.inr (by simp [word16]; omega))]

end

/-! ### The receiver of a message -/

section

variable (pm : PALSManager)

/-- The list of the spals is behind everything else. -/
lemma serialize_of_lt (m : Mem) {q : ℕ} (hq : q < 12 + pm.gpalList.length * 52) :
    pm.serialize m q = pm.serializeGPals (pm.serializeHeader m) 10 q :=
  putCounted_frame _ _ _ (.inl hq)

/-- The fields in front of the lists are written. -/
lemma fixes_header {q : ℕ} (hq : q < 10) : Fixes pm.serialize q := by
  have hheader : Fixes pm.serializeHeader q := by
    by_cases hlt : q < 2
    · have hmb : Fixes (word16.put pm.middleboxId · 0) q :=
        word16_uses.fixes _ _ _ (Nat.zero_le q) (by omega)
      exact hmb.of_left fun m => word64.put_frame _ _ _ _ (.inl hlt)
    · exact (word64_uses.fixes _ _ _ (by omega) (by omega)).after (word16.put pm.middleboxId · 0)
  have hgps : Fixes (fun m => pm.serializeGPals (pm.serializeHeader m) 10) q :=
    hheader.of_left fun m => putCounted_frame _ _ _ (.inl hq)
  exact hgps.of_left fun m => putCounted_frame _ _ _ (.inl (by omega))

/-- The receiver reads the list of the gpals as the sender wrote it. -/
lemma deserializeGPals_serialize (m : Mem) :
    (deserializeGPals (pm.serialize m) 10).cursor = 12 + pm.gpalList.length * 52 ∧
      ∀ q, (deserializeGPals (pm.serialize m) 10).Reads q → Fixes pm.serialize q := by
  have hlen : pm.gpalList.length < 2 ^ 16 := lt_of_le_of_lt pm.gpalList_le (by decide)
  obtain ⟨-, hcursor, hreads⟩ :=
    scanCounted_putCounted gpalCodec_uses hlen (pm.serializeHeader m) 10
  have hsame : deserializeGPals (pm.serialize m) 10
      = scanCounted gpalCodec 52 (putCounted gpalCodec pm.gpalList (pm.serializeHeader m) 10) 10 :=
    gpalCodec_uses.faithful_scanCounted _ _ _ fun q hq => pm.serialize_of_lt m (hreads q hq).2
  rw [hsame]
  refine ⟨hcursor, fun q hq => ?_⟩
  obtain ⟨hfixes, hlt⟩ := hreads q hq
  have hgps : Fixes (fun m => pm.serializeGPals (pm.serializeHeader m) 10) q := hfixes.after _
  exact hgps.of_left fun m => putCounted_frame _ _ _ (.inl hlt)

/-- The receiver reads the list of the spals as the sender wrote it. -/
lemma deserializeSPals_serialize (m : Mem) :
    (deserializeSPals (pm.serialize m) (12 + pm.gpalList.length * 52)).cursor
        = pm.getSerializationLength ∧
      ∀ q, (deserializeSPals (pm.serialize m) (12 + pm.gpalList.length * 52)).Reads q →
        Fixes pm.serialize q := by
  have hlen : pm.spalList.length < 2 ^ 16 := lt_of_le_of_lt pm.spalList_le (by decide)
  obtain ⟨-, hcursor, hreads⟩ := scanCounted_putCounted spalCodec_uses hlen
    (pm.serializeGPals (pm.serializeHeader m) 10) (12 + pm.gpalList.length * 52)
  refine ⟨hcursor.trans ?_, fun q hq => ?_⟩
  · rw [getSerializationLength_eq, spalCodec_size]
    omega
  · exact (hreads q hq).1.after fun m => pm.serializeGPals (pm.serializeHeader m) 10

/-- The receiver of a message reads bytes that the sender wrote, and stops at the reported
length. -/
lemma deserializeMsg_serialize (m : Mem) :
    (deserializeMsg (pm.serialize m) 0).value = some pm ∧
      (deserializeMsg (pm.serialize m) 0).cursor = pm.getSerializationLength ∧
      ∀ q, (deserializeMsg (pm.serialize m) 0).Reads q → Fixes pm.serialize q := by
  obtain ⟨hgcursor, hgreads⟩ := pm.deserializeGPals_serialize m
  obtain ⟨hscursor, hsreads⟩ := pm.deserializeSPals_serialize m
  have hsize : word16.size = 2 ∧ word64.size = 8 := ⟨rfl, rfl⟩
  refine ⟨?_, ?_, fun q hq => ?_⟩
  · rw [value_deserializeMsg]
    exact deserialize_of_agreeOn pm m _ fun _ _ _ => rfl
  · simp only [deserializeMsg, Scan.bind_apply, Scan.pure_apply, Codec.cursor_scan, hsize,
      Nat.zero_add, Nat.reduceAdd, hgcursor, hscursor]
  · simp only [deserializeMsg, Scan.reads_bind, Scan.not_reads_pure, Codec.reads_scan,
      Codec.cursor_scan, hsize, Nat.zero_add, Nat.reduceAdd, hgcursor, or_false] at hq
    rcases hq with hmb | hpid | hgps | hsps
    · exact pm.fixes_header (by omega)
    · exact pm.fixes_header (by omega)
    · exact hgreads q hgps
    · exact hsreads q hsps

end

/-- **The wire format of determinants.**  A receiver of the bytes that the sender of a manager
wrote, whatever stands between and behind them, gets this manager.  It stops at the reported
length, and reads nothing but bytes that the sender wrote, all of them before this length.  To
encode what it got writes the same bytes. -/
theorem deserializeMsg_of_written (pm : PALSManager) (m m' : Mem)
    (h : ∀ q, Writes pm.serialize q → m' q = pm.serialize m q) :
    (deserializeMsg m' 0).value = some pm ∧
      (deserializeMsg m' 0).cursor = pm.getSerializationLength ∧
      (∀ q, (deserializeMsg m' 0).Reads q →
        Writes pm.serialize q ∧ q < pm.getSerializationLength) ∧
      ∀ pm' ∈ (deserializeMsg m' 0).value, ∀ m'' q,
        (Writes pm'.serialize q ↔ Writes pm.serialize q) ∧
          (Writes pm.serialize q → pm'.serialize m'' q = m' q) := by
  obtain ⟨hvalue, hcursor, hreads⟩ := pm.deserializeMsg_serialize m
  have hsame : deserializeMsg m' 0 = deserializeMsg (pm.serialize m) 0 :=
    faithful_deserializeMsg _ _ _ fun q hq => h q (hreads q hq).writes
  rw [hsame]
  refine ⟨hvalue, hcursor, fun q hq => ?_, fun pm' hpm' m'' q => ?_⟩
  · have hwrites := (hreads q hq).writes
    exact ⟨hwrites, pm.lt_of_writes hwrites⟩
  · obtain rfl : pm = pm' := Option.some.inj (hvalue.symm.trans hpm')
    refine ⟨Iff.rfl, fun hq => ?_⟩
    rw [h q hq]
    exact pm.definite_serialize.fixes_of_writes hq m'' m

/-- A manager with an entry in each list. -/
def oneEach : PALSManager :=
  ⟨7, 33, [⟨1, Vector.replicate 50 104⟩], [⟨2, 5⟩], by decide, by decide⟩

/-- The bytes between and behind the written ones are `7` for the receiver, and `0` for the
sender. -/
theorem deserializeMsg_oneEach :
    (deserializeMsg (oneEach.serialize fun _ => 7) 0).value = some oneEach ∧
      (deserializeMsg (oneEach.serialize fun _ => 7) 0).cursor = 74 := by
  obtain ⟨hvalue, hcursor, -⟩ := deserializeMsg_of_written oneEach (fun _ => 0)
    (oneEach.serialize fun _ => 7) fun q hq => oneEach.definite_serialize.fixes_of_writes hq _ _
  exact ⟨hvalue, hcursor⟩

end PALSManager

end FtThesis
