/-
Which bytes an encoder writes, and which bytes a decoder reads.

* `Writes`, `Fixes`: a byte is written, and it is written independently of the buffer;
* `Definite`: a function on buffers that fixes or leaves each byte, with `Definite.comp`;
* `Codec.Uses`: a codec that works on its first bytes only;
* `Scan`: a decoder with a cursor, a monad; it records the ranges that it reads;
* `Scan.Faithful`: a scan depends on nothing but what it reads, with the rules for it;
* `scanCounted`: an array behind its length, with `scanCounted_putCounted`.
-/
import FtThesis.Library.Memory

namespace Memory

/-! ### What is written -/

/-- Some buffer has another byte at `q` afterwards. -/
def Writes (f : Mem → Mem) (q : ℕ) : Prop := ∃ m, f m q ≠ m q

/-- The byte at `q` is the same afterwards, whatever the buffer contains. -/
def Fixes (f : Mem → Mem) (q : ℕ) : Prop := ∀ m m', f m q = f m' q

/-- Each byte is fixed, or left as it is. -/
def Definite (f : Mem → Mem) : Prop := ∀ q, Fixes f q ∨ ∀ m, f m q = m q

section

variable {f g : Mem → Mem} {q : ℕ}

/-- A byte that is fixed is written: some buffer has another one there. -/
lemma Fixes.writes (h : Fixes f q) : Writes f q := by
  by_contra hnot
  rw [Writes, not_exists] at hnot
  simp only [not_not] at hnot
  have hsame := h (fun _ => 0) (fun _ => 1)
  rw [hnot, hnot] at hsame
  exact absurd hsame (by decide)

lemma Definite.fixes_of_writes (hf : Definite f) (h : Writes f q) : Fixes f q := by
  obtain ⟨m, hm⟩ := h
  exact (hf q).resolve_right fun hleft => hm (hleft m)

/-- One function after another. -/
lemma Definite.comp (hg : Definite g) (hf : Definite f) : Definite fun m => g (f m) := by
  intro q
  rcases hg q with hfix | hleft
  · exact .inl fun m m' => hfix (f m) (f m')
  · rcases hf q with hfix | hleft'
    · exact .inl fun m m' => ((hleft _).trans (hfix m m')).trans (hleft _).symm
    · exact .inr fun m => (hleft _).trans (hleft' m)

/-- What is fixed stays fixed when it is left as it is afterwards. -/
lemma Fixes.of_left (hf : Fixes f q) (hg : ∀ m, g m q = m q) : Fixes (fun m => g (f m)) q :=
  fun m m' => ((hg _).trans (hf m m')).trans (hg _).symm

/-- What is fixed at last is fixed. -/
lemma Fixes.after (hg : Fixes g q) (f : Mem → Mem) : Fixes (fun m => g (f m)) q :=
  fun m m' => hg (f m) (f m')

end

namespace Codec

variable {α β : Type*}

/-- Only the first `used` bytes of a value are written and read. -/
structure Uses (c : Codec α) (used : ℕ) : Prop where
  le : used ≤ c.size
  put_frame : ∀ a m p q, q < p ∨ p + used ≤ q → c.put a m p q = m q
  fixes : ∀ a p q, p ≤ q → q < p + used → Fixes (fun m => c.put a m p) q
  get_congr : ∀ m m' p, AgreeOn m m' p used → c.get m p = c.get m' p

namespace Uses

variable {c : Codec α} {d : Codec β} {used : ℕ}

lemma prod (hc : c.Uses c.size) (hd : d.Uses used) : (c.prod d).Uses (c.size + used) where
  le := Nat.add_le_add_left hd.le _
  put_frame ab m p q h := by
    have hfirst : q < p ∨ p + c.size ≤ q := by omega
    exact (hd.put_frame _ _ _ _ (by omega)).trans (c.put_frame _ _ _ _ hfirst)
  fixes ab p q h₁ h₂ := by
    by_cases hq : q < p + c.size
    · exact (hc.fixes ab.1 p q h₁ hq).of_left fun m => d.put_frame _ _ _ _ (.inl hq)
    · exact (hd.fixes ab.2 (p + c.size) q (by omega) (by omega)).after _
  get_congr m m' p h := by
    simp only [Codec.prod, Prod.mk.injEq]
    exact ⟨c.get_congr m m' p (h.mono le_rfl (by omega)),
      hd.get_congr m m' _ (h.mono (by omega) (by omega))⟩

lemma map (hc : c.Uses used) (e : β ≃ α) : (c.map e).Uses used where
  le := hc.le
  put_frame b := hc.put_frame (e b)
  fixes b := hc.fixes (e b)
  get_congr m m' p h := congrArg e.symm (hc.get_congr m m' p h)

lemma pad (hc : c.Uses used) (k : ℕ) : (c.pad k).Uses used where
  le := hc.le.trans (Nat.le_add_right _ _)
  put_frame := hc.put_frame
  fixes := hc.fixes
  get_congr := hc.get_congr

/-- Putting a value fixes the bytes that are used and leaves the others. -/
lemma definite (hc : c.Uses used) (a : α) (p : ℕ) : Definite fun m => c.put a m p := by
  intro q
  by_cases hq : p ≤ q ∧ q < p + used
  · exact .inl (hc.fixes a p q hq.1 hq.2)
  · exact .inr fun m => hc.put_frame a m p q (by omega)

lemma definite_putList (hc : c.Uses used) (as : List α) (p : ℕ) :
    Definite fun m => c.putList as m p := by
  induction as generalizing p with
  | nil => exact fun q => .inr fun m => rfl
  | cons a as ih => exact (ih (p + c.size)).comp (hc.definite a p)

/-- The bytes of each entry of an array that are used are fixed. -/
lemma fixes_putList (hc : c.Uses used) {as : List α} {p i q : ℕ} (hi : i < as.length)
    (h₁ : p + i * c.size ≤ q) (h₂ : q < p + i * c.size + used) :
    Fixes (fun m => c.putList as m p) q := by
  have hle := hc.le
  induction as generalizing p i with
  | nil => exact absurd hi (Nat.not_lt_zero i)
  | cons a as ih =>
      cases i with
      | zero =>
          have hput := hc.fixes a p q (by omega) (by omega)
          exact hput.of_left fun m => c.putList_frame as m (.inl (by omega))
      | succ i =>
          rw [Nat.succ_mul] at h₁ h₂
          have hlt : i < as.length := by simpa using hi
          exact (ih hlt (by omega) (by omega)).after fun m => c.put a m p

end Uses

end Codec

lemma fixes_putWord {n v p q : ℕ} (h₁ : p ≤ q) (h₂ : q < p + n) :
    Fixes (fun m => putWord n v m p) q := by
  induction n generalizing v p with
  | zero => omega
  | succ n ih =>
      intro m m'
      rcases h₁.eq_or_lt with rfl | hlt
      · simp only [putWord]
        rw [putWord_frame _ _ _ (by omega), putWord_frame _ _ _ (by omega), Function.update_self,
          Function.update_self]
      · exact ih (v := v / 256) (p := p + 1) hlt (by omega) _ _

lemma word16_uses : word16.Uses 2 where
  le := le_rfl
  put_frame := word16.put_frame
  fixes _ _ _ h₁ h₂ := fixes_putWord h₁ h₂
  get_congr := word16.get_congr

lemma word32_uses : word32.Uses 4 where
  le := le_rfl
  put_frame := word32.put_frame
  fixes _ _ _ h₁ h₂ := fixes_putWord h₁ h₂
  get_congr := word32.get_congr

lemma word64_uses : word64.Uses 8 where
  le := le_rfl
  put_frame := word64.put_frame
  fixes _ _ _ h₁ h₂ := fixes_putWord h₁ h₂
  get_congr := word64.get_congr

lemma bytes_uses (n : ℕ) : (bytes n).Uses n where
  le := le_rfl
  put_frame := (bytes n).put_frame
  fixes v p q h₁ h₂ m m' := by
    obtain ⟨i, rfl⟩ := Nat.exists_eq_add_of_le h₁
    have hi : i < v.toList.length := by
      rw [Vector.length_toList]
      omega
    exact (memcpy_getElem hi).trans (memcpy_getElem hi).symm
  get_congr := (bytes n).get_congr

/-- An array behind its length is written up to its end. -/
lemma putCounted_frame {α : Type*} (c : Codec α) (as : List α) (m : Mem) {p q : ℕ}
    (h : q < p ∨ p + 2 + as.length * c.size ≤ q) : putCounted c as m p q = m q :=
  (agreeOn_putCounted_of_disjoint c as m (by omega) q le_rfl (Nat.lt_add_one q)).symm

lemma definite_putCounted {α : Type*} {c : Codec α} {used : ℕ} (hc : c.Uses used) (as : List α)
    (p : ℕ) : Definite fun m => putCounted c as m p :=
  (hc.definite_putList as (p + 2)).comp (word16_uses.definite _ p)

/-! ### Scans -/

/-- What a scan comes to: the value, the cursor behind it, and the ranges that were read,
each with its address and its length. -/
structure Scanned (α : Type*) where
  value : α
  cursor : ℕ
  reads : List (ℕ × ℕ)

/-- The addresses that were read. -/
def Scanned.Reads {α : Type*} (r : Scanned α) (q : ℕ) : Prop :=
  ∃ range ∈ r.reads, range.1 ≤ q ∧ q < range.1 + range.2

/-- A decoder of a buffer that starts at a cursor. -/
def Scan (α : Type*) := Mem → ℕ → Scanned α

namespace Scan

universe u

variable {α β : Type u}

instance : Monad Scan where
  pure a := fun _ p => ⟨a, p, []⟩
  bind x f := fun m p =>
    let r := x m p
    let r' := f r.value m r.cursor
    ⟨r'.value, r'.cursor, r.reads ++ r'.reads⟩

lemma pure_apply (a : α) (m : Mem) (p : ℕ) : (pure a : Scan α) m p = ⟨a, p, []⟩ := rfl

lemma bind_apply (x : Scan α) (f : α → Scan β) (m : Mem) (p : ℕ) :
    (x >>= f) m p = ⟨(f (x m p).value m (x m p).cursor).value,
      (f (x m p).value m (x m p).cursor).cursor,
      (x m p).reads ++ (f (x m p).value m (x m p).cursor).reads⟩ := rfl

lemma reads_bind {x : Scan α} {f : α → Scan β} {m : Mem} {p q : ℕ} :
    ((x >>= f) m p).Reads q ↔
      (x m p).Reads q ∨ (f (x m p).value m (x m p).cursor).Reads q := by
  simp only [Scanned.Reads, bind_apply, List.mem_append, or_and_right, exists_or]

lemma not_reads_pure {a : α} {m : Mem} {p q : ℕ} : ¬ ((pure a : Scan α) m p).Reads q := by
  rintro ⟨range, hrange, -⟩
  exact List.not_mem_nil hrange

/-- The same scan, a number of times. -/
def replicate (x : Scan α) : ℕ → Scan (List α)
  | 0 => pure []
  | n + 1 => do
      let a ← x
      let as ← x.replicate n
      pure (a :: as)

/-- What a scan comes to depends on the bytes that it reads only. -/
def Faithful (x : Scan α) : Prop :=
  ∀ m m' p, (∀ q, (x m p).Reads q → m' q = m q) → x m' p = x m p

lemma faithful_pure (a : α) : (pure a : Scan α).Faithful := fun _ _ _ _ => rfl

lemma Faithful.bind {x : Scan α} {f : α → Scan β} (hx : x.Faithful) (hf : ∀ a, (f a).Faithful) :
    (x >>= f).Faithful := by
  intro m m' p h
  have hfirst : x m' p = x m p := hx m m' p fun q ⟨range, hrange, hq⟩ =>
    h q ⟨range, List.mem_append_left _ hrange, hq⟩
  have hsecond : f (x m p).value m' (x m p).cursor = f (x m p).value m (x m p).cursor :=
    hf _ m m' _ fun q ⟨range, hrange, hq⟩ => h q ⟨range, List.mem_append_right _ hrange, hq⟩
  rw [bind_apply, bind_apply, hfirst, hsecond]

lemma Faithful.replicate {x : Scan α} (hx : x.Faithful) (n : ℕ) : (x.replicate n).Faithful := by
  induction n with
  | zero => exact faithful_pure []
  | succ n ih => exact hx.bind fun a => ih.bind fun as => faithful_pure (a :: as)

end Scan

/-! ### Scans of values -/

section

variable {α : Type} {c : Codec α} {used : ℕ}

/-- The value at the cursor, of which the first `used` bytes are read. -/
def Codec.scan (c : Codec α) (used : ℕ) : Scan α := fun m p => ⟨c.get m p, p + c.size, [(p, used)]⟩

lemma Codec.Uses.faithful_scan (hc : c.Uses used) : (c.scan used).Faithful := by
  intro m m' p h
  have hget : c.get m' p = c.get m p :=
    hc.get_congr m' m p fun q h₁ h₂ => h q ⟨(p, used), List.mem_singleton_self _, h₁, h₂⟩
  rw [Codec.scan, Codec.scan, hget]

lemma Codec.cursor_scan {m : Mem} {p : ℕ} : (c.scan used m p).cursor = p + c.size := rfl

lemma Codec.reads_scan {m : Mem} {p q : ℕ} : (c.scan used m p).Reads q ↔ p ≤ q ∧ q < p + used := by
  simp [Scanned.Reads, Codec.scan]

/-- A number of values, one behind the other. -/
lemma Codec.replicate_scan (c : Codec α) (used n : ℕ) (m : Mem) (p : ℕ) :
    (c.scan used).replicate n m p = ⟨c.getList n m p, p + n * c.size,
      (List.range n).map fun i => (p + i * c.size, used)⟩ := by
  induction n generalizing p with
  | zero => simp [Scan.replicate, Scan.pure_apply, Codec.getList]
  | succ n ih =>
      have hcursor : p + c.size + n * c.size = p + (n + 1) * c.size := by ring
      have hreads (i : ℕ) : p + c.size + i * c.size = p + (i + 1) * c.size := by ring
      simp only [Scan.replicate, Scan.bind_apply, Scan.pure_apply, ih, Codec.scan, Codec.getList,
        hcursor, hreads, List.range_succ_eq_map, List.map_cons, List.map_map, List.append_nil]
      simp [Function.comp_def]

/-- As many values as the `uint16_t` in front of them says. -/
def scanCounted (c : Codec α) (used : ℕ) : Scan (List α) := do
  let n ← word16.scan 2
  (c.scan used).replicate n.toNat

lemma Codec.Uses.faithful_scanCounted (hc : c.Uses used) : (scanCounted c used).Faithful :=
  word16_uses.faithful_scan.bind fun n => hc.faithful_scan.replicate n.toNat

lemma scanCounted_apply (c : Codec α) (used : ℕ) (m : Mem) (p : ℕ) :
    scanCounted c used m p = ⟨getCounted c m p, p + 2 + (getCounted c m p).length * c.size,
      (p, 2) :: (List.range (getCounted c m p).length).map fun i =>
        (p + 2 + i * c.size, used)⟩ := by
  have hlength : (getCounted c m p).length = (word16.get m p).toNat := c.length_getList ..
  rw [hlength, scanCounted, Scan.bind_apply, Codec.replicate_scan]
  rfl

/-- Of an array behind its length, exactly those bytes are read back that were written, and
the cursor stops at its end. -/
theorem scanCounted_putCounted (hc : c.Uses used) {as : List α} (hlen : as.length < 2 ^ 16)
    (m : Mem) (p : ℕ) :
    (scanCounted c used (putCounted c as m p) p).value = as ∧
      (scanCounted c used (putCounted c as m p) p).cursor = p + 2 + as.length * c.size ∧
      ∀ q, (scanCounted c used (putCounted c as m p) p).Reads q →
        Fixes (fun m => putCounted c as m p) q ∧ q < p + 2 + as.length * c.size := by
  have hvalue : getCounted c (putCounted c as m p) p = as :=
    getCounted_of_agreeOn c as hlen fun _ _ _ => rfl
  rw [scanCounted_apply, hvalue]
  refine ⟨rfl, rfl, ?_⟩
  rintro q ⟨range, hrange, h₁, h₂⟩
  rcases List.mem_cons.mp hrange with rfl | hrange
  · have hcount : Fixes (word16.put (UInt16.ofNat as.length) · p) q := word16_uses.fixes _ p q h₁ h₂
    exact ⟨hcount.of_left fun m => c.putList_frame as m (.inl h₂), by omega⟩
  · obtain ⟨i, hi, rfl⟩ := List.mem_map.mp hrange
    have hlt : i < as.length := List.mem_range.mp hi
    have hend : (i + 1) * c.size ≤ as.length * c.size := Nat.mul_le_mul_right _ hlt
    have hle := hc.le
    rw [Nat.succ_mul] at hend
    exact ⟨(hc.fixes_putList hlt h₁ h₂).after _, by omega⟩

end

end Memory
